import HabitatGraph.Foundation.InlineSyntax

/-! # Inline links of Markdown

A line read for links of the form `[text](dest)`, from left to right. A backslash takes the
meaning off the character after it; a code span, an autolink or an HTML tag is passed over
whole; brackets in a link text are balanced, and a link text has no link in it. Images are
read like links, but they are none, and a link text may have one in it.
-/

namespace InlineLinks

/-- A bracket that is open: that of an image, or that of a link, which is dead once a link
is found after it. -/
inductive Opener
  | image
  | link
  | dead
deriving DecidableEq, Repr

def Opener.deaden : Opener → Opener
  | .image => .image
  | _ => .dead

/-- What a character takes of the text after it, and whether the text shows where that ends. -/
structure Reach where
  skip : Nat
  ended : Bool
deriving DecidableEq, Repr

/-- An escape, a code span, an autolink or a tag that begins at a character. Backticks that
begin no code span stand for themselves, all of them. -/
def reach (ch : Char) (chars : List Char) : Reach :=
  if ch = '\\' then ⟨1, true⟩
  else if ch = '`' then
    ((codeSpan 1 chars).map fun length => (⟨length, true⟩ : Reach)).getD
      ⟨(chars.takeWhile (· = '`')).length, false⟩
  else if ch = '<' then
    ⟨(angle chars).getD 0, (angleMatches chars).all fun found => found ≠ .unended⟩
  else ⟨0, true⟩

/-- What is found at a character: the destinations of the links that end there, how much of
the text after it belongs to it, and the brackets open then. -/
structure Found where
  dests : List (List Char)
  skip : Nat
  openers : List Opener

/-- Close a bracket. One that no destination follows is text. -/
def close : List Opener → List Char → Found
  | [], _ => ⟨[], 0, []⟩
  | .dead :: openers, _ => ⟨[], 0, openers⟩
  | .image :: openers, chars => ⟨[], ((linkTail chars).map Prod.fst).getD 0, openers⟩
  | .link :: openers, chars =>
      ((linkTail chars).map fun tail =>
        (⟨[tail.2], tail.1, openers.map Opener.deaden⟩ : Found)).getD ⟨[], 0, openers⟩

def find (openers : List Opener) (ch : Char) (chars : List Char) : Found :=
  if ch = '[' then ⟨[], 0, .link :: openers⟩
  else if ch = ']' then close openers chars
  else if ch = '!' && chars.head? = some '[' then ⟨[], 1, .image :: openers⟩
  else ⟨[], (reach ch chars).skip, openers⟩

/-- The destinations of the links in a text, after the characters that belong to what is
found before it, with some brackets open. -/
def read : Nat → List Opener → List Char → List (List Char)
  | _, _, [] => []
  | skip + 1, openers, _ :: chars => read skip openers chars
  | 0, openers, ch :: chars =>
      (find openers ch chars).dests ++
        read (find openers ch chars).skip (find openers ch chars).openers chars

/-- The destinations of the links of a line. -/
def links (line : List Char) : List (List Char) := read 0 [] line

/-- The destinations of the links of a text, line by line. -/
def fileLinks (chars : List Char) : List (List Char) := (chars.splitOn '\n').flatMap links

example : fileLinks "[a](b) \\[c](d)\n[e [f](g)](h) [i\\](j)".toList =
    ["b".toList, "g".toList] := by decide

example : links "[`]`](evil) `[a](b)` <i t='[c](d)'> ![e](f) [![g](h)](i)".toList =
    ["evil".toList, "i".toList] := by decide

/-- Links do not reach over the end of a line. -/
theorem fileLinks_lines {lines : List (List Char)} (hlines : ∀ line ∈ lines, '\n' ∉ line) :
    fileLinks (lines.flatMap fun line => line ++ ['\n']) = lines.flatMap links := by
  induction lines with
  | nil => rfl
  | cons line lines ih =>
      obtain ⟨hline, hrest⟩ := List.forall_mem_cons.mp hlines
      rw [List.flatMap_cons, List.append_assoc, List.singleton_append, fileLinks,
        List.splitOn_append_cons_self_of_not_mem hline, List.flatMap_cons, List.flatMap_cons,
        ← fileLinks, ih hrest]

/-! ## Parts of a line -/

theorem read_nil (skip : Nat) (openers : List Opener) : read skip openers [] = [] := by
  cases skip <;> rfl

/-- What belongs to a construct is passed over. -/
theorem read_skip (openers : List Opener) (chars after : List Char) :
    read chars.length openers (chars ++ after) = read 0 openers after := by
  induction chars with
  | nil => rfl
  | cons ch chars ih => exact ih

/-- A character that begins nothing. -/
def isPlain (ch : Char) : Bool := !(['\\', '`', '<', '!', '[', ']'].contains ch)

theorem read_of_isPlain {before : List Char} (hbefore : ∀ ch ∈ before, isPlain ch)
    (openers : List Opener) (chars : List Char) :
    read 0 openers (before ++ chars) = read 0 openers chars := by
  induction before with
  | nil => rfl
  | cons ch before ih =>
      obtain ⟨hch, hrest⟩ := List.forall_mem_cons.mp hbefore
      simp only [isPlain, List.contains_cons, List.contains_nil, Bool.or_false, Bool.not_eq_true',
        Bool.or_eq_false_iff, beq_eq_false_iff_ne, ne_eq] at hch
      obtain ⟨hescape, htick, hangle, himage, hopen, hclose⟩ := hch
      have hfind : find openers ch (before ++ chars) = ⟨[], 0, openers⟩ := by
        simp [find, reach, hescape, htick, hangle, himage, hopen, hclose]
      rw [List.cons_append, read, hfind, List.nil_append, ih hrest]

theorem links_append_of_isPlain {before : List Char} (hbefore : before.all isPlain)
    (chars : List Char) : links (before ++ chars) = links chars :=
  read_of_isPlain (List.all_eq_true.mp hbefore) [] chars

theorem close_dests_of_notMem {chars : List Char} (hchars : ')' ∉ chars)
    (openers : List Opener) : (close openers chars).dests = [] := by
  match openers with
  | [] => rfl
  | .dead :: openers => rfl
  | .image :: openers => rfl
  | .link :: openers => rw [close, linkTail_of_notMem hchars, Option.map_none, Option.getD_none]

/-- No link ends in a text without a closing parenthesis. -/
theorem read_of_notMem {chars : List Char} (hchars : ')' ∉ chars) (skip : Nat)
    (openers : List Opener) : read skip openers chars = [] := by
  induction chars generalizing skip openers with
  | nil => exact read_nil skip openers
  | cons ch chars ih =>
      rw [List.mem_cons, not_or] at hchars
      cases skip with
      | succ skip => exact ih hchars.2 skip openers
      | zero =>
          have hdests : (find openers ch chars).dests = [] := by
            have hclose := close_dests_of_notMem hchars.2 openers
            unfold find
            split_ifs <;> first | rfl | exact hclose
          rw [read, hdests, ih hchars.2, List.append_nil]

/-- The characters that end a construct, or with the character before them begin one. -/
def endsNothing (ch : Char) : Bool := !(['`', '>', ')', '['].contains ch)

section EndsNothing

variable {after : List Char} (hafter : ∀ ch ∈ after, endsNothing ch)
include hafter

theorem notMem_of_endsNothing {ch : Char} (hch : endsNothing ch = false) : ch ∉ after :=
  fun hmem => Bool.false_ne_true (hch.symm.trans (hafter ch hmem))

theorem skip_reach_append (ch : Char) (chars : List Char) :
    (reach ch (chars ++ after)).skip = (reach ch chars).skip := by
  have htick : '`' ∉ after := notMem_of_endsNothing hafter (by decide)
  have hangle : '>' ∉ after := notMem_of_endsNothing hafter (by decide)
  have hrun : (chars ++ after).takeWhile (· = '`') = chars.takeWhile (· = '`') := by
    induction chars with
    | nil =>
        cases after with
        | nil => rfl
        | cons first after =>
            have hfirst : first ≠ '`' := fun h => htick (h ▸ List.mem_cons_self)
            simp [hfirst]
    | cons first chars ih => rw [List.cons_append, List.takeWhile_cons, List.takeWhile_cons, ih]
  unfold reach
  rw [codeSpan_append_of_notMem Nat.one_ne_zero htick, angle_append_of_notMem hangle, hrun]
  split_ifs <;> rfl

theorem close_append (openers : List Opener) (chars : List Char) :
    close openers (chars ++ after) = close openers chars := by
  have htail := linkTail_append_of_notMem
    (notMem_of_endsNothing hafter (by decide : _ = false)) chars
  match openers with
  | [] => rfl
  | .dead :: openers => rfl
  | .image :: openers => rw [close, htail, close]
  | .link :: openers => rw [close, htail, close]

theorem find_append (openers : List Opener) (ch : Char) (chars : List Char) :
    find openers ch (chars ++ after) = find openers ch chars := by
  have hhead : (chars ++ after).head? = some '[' ↔ chars.head? = some '[' := by
    cases chars with
    | nil =>
        have hopen : '[' ∉ after := notMem_of_endsNothing hafter (by decide)
        exact iff_of_false (fun h => hopen (List.mem_of_head? h)) (by simp)
    | cons first chars => rfl
  unfold find
  rw [close_append hafter, skip_reach_append hafter]
  simp only [hhead]

/-- Text that ends nothing adds no link to the text before it. -/
theorem read_append (skip : Nat) (openers : List Opener) (chars : List Char) :
    read skip openers (chars ++ after) = read skip openers chars := by
  induction chars generalizing skip openers with
  | nil => rw [List.nil_append, read_of_notMem (notMem_of_endsNothing hafter (by decide)), read_nil]
  | cons ch chars ih =>
      cases skip with
      | succ skip => exact ih skip openers
      | zero => rw [List.cons_append, read, read, find_append hafter, ih]

end EndsNothing

/-! ## Link texts -/

/-- A text up to a closing bracket keeps to itself: it has no other bracket, and what begins
in it ends in it, whatever follows. -/
def keepsToItself : Nat → List Char → Bool
  | _, [] => false
  | skip + 1, _ :: chars => keepsToItself skip chars
  | 0, ch :: chars =>
      if ch = ']' then chars.isEmpty
      else ch ≠ '[' && (reach ch chars).ended && keepsToItself (reach ch chars).skip chars

theorem reach_append_of_ended {ch : Char} {chars : List Char}
    (h : (reach ch (chars ++ [']'])).ended) (after : List Char) :
    reach ch (chars ++ ']' :: after) = reach ch (chars ++ [']']) := by
  unfold reach at h ⊢
  split_ifs at h ⊢ with hescape htick hangle
  · rfl
  · cases hspan : codeSpan 1 (chars ++ [']']) with
    | none =>
        rw [hspan] at h
        cases h
    | some length =>
        rw [codeSpan_append (by decide) Nat.one_ne_zero hspan]
        rfl
  · simp only [List.all_eq_true, decide_eq_true_eq] at h
    have hmatches : angleMatches (chars ++ ']' :: after) = angleMatches (chars ++ [']']) := by
      rw [List.append_cons]
      exact angleMatches_append h after
    rw [angle, angle, hmatches]
  · rfl

/-- No image begins in a text that keeps to itself. -/
theorem not_image_of_keepsToItself {ch : Char} {chars : List Char}
    (h : keepsToItself (reach ch (chars ++ [']'])).skip (chars ++ [']'])) (after : List Char) :
    ¬ (ch = '!' && (chars ++ ']' :: after).head? = some '[') := by
  rw [Bool.and_eq_true, decide_eq_true_eq, decide_eq_true_eq]
  rintro ⟨rfl, hhead⟩
  cases chars with
  | nil => cases hhead
  | cons first chars =>
      obtain rfl : first = '[' := Option.some.inj hhead
      cases h

/-- A link text that keeps to itself leads to its closing bracket. -/
theorem read_of_keepsToItself {chars : List Char} {skip : Nat}
    (h : keepsToItself skip (chars ++ [']'])) (openers : List Opener) (after : List Char) :
    read skip openers (chars ++ ']' :: after) = read 0 openers (']' :: after) := by
  induction chars generalizing skip with
  | nil =>
      cases skip with
      | zero => rfl
      | succ skip => cases skip <;> cases h
  | cons ch chars ih =>
      cases skip with
      | succ skip => exact ih h
      | zero =>
          rw [List.cons_append, keepsToItself] at h
          split at h
          next => cases chars <;> cases h
          next hclose =>
              simp only [Bool.and_eq_true, decide_eq_true_eq] at h
              obtain ⟨⟨hopen, hended⟩, hrest⟩ := h
              have himage := not_image_of_keepsToItself hrest after
              have hfind : find openers ch (chars ++ ']' :: after) =
                  ⟨[], (reach ch (chars ++ [']'])).skip, openers⟩ := by
                rw [find, if_neg hopen, if_neg hclose, if_neg himage, reach_append_of_ended hended]
              rw [List.cons_append, read, hfind, List.nil_append, ih hrest]

/-- A link whose text keeps to itself, to a destination of plain characters. -/
theorem links_link {text : List Char} (htext : keepsToItself 0 (text ++ [']']))
    {dest : List Char} (hdest : ∀ ch ∈ dest, isDestChar ch) (hpointy : dest.head? ≠ some '<')
    (after : List Char) :
    links ('[' :: (text ++ ']' :: '(' :: (dest ++ ')' :: after))) = dest :: links after := by
  have hclose : find [.link] ']' ('(' :: (dest ++ ')' :: after)) =
      ⟨[dest], dest.length + 2, []⟩ := by
    rw [find, if_neg (by decide), if_pos rfl, close, linkTail_dest hdest hpointy]
    rfl
  have hskip : read (dest.length + 2) [] ('(' :: (dest ++ ')' :: after)) = read 0 [] after := by
    have hlength : dest.length + 2 = ('(' :: (dest ++ [')'])).length := by simp
    have hchars : '(' :: (dest ++ ')' :: after) = '(' :: (dest ++ [')']) ++ after := by simp
    rw [hlength, hchars, read_skip]
  have hopen : links ('[' :: (text ++ ']' :: '(' :: (dest ++ ')' :: after))) =
      read 0 [.link] (text ++ ']' :: '(' :: (dest ++ ')' :: after)) := rfl
  rw [hopen, read_of_keepsToItself htext, read, hclose, hskip]
  rfl

end InlineLinks
