import HabitatGraph.Foundation.PrefixMatch

/-! # Inline constructs of Markdown

What binds tighter than the brackets of a link: code spans, autolinks and HTML tags, each as
CommonMark has it within a line. And what stands after the closing bracket of a link: its
destination and its title, in parentheses.
-/

namespace InlineLinks

/-- The ASCII punctuation, which a backslash escapes. -/
def isPunctuation (ch : Char) : Bool :=
  33 ≤ ch.toNat && ch.toNat ≤ 126 && !ch.isAlphanum

def isBlank (ch : Char) : Bool := ch = ' ' || ch = '\t'

def isAsciiControl (ch : Char) : Bool := ch.toNat < 32 || ch.toNat = 127

/-! ## Code spans -/

/-- The length of a text up to the end of its first run of just `count` backticks, where
`run` backticks stand directly before the text. -/
def closingRun (count : Nat) : Nat → List Char → Option Nat
  | run, [] => if run = count then some 0 else none
  | run, ch :: chars =>
      if ch = '`' then (closingRun count (run + 1) chars).map (· + 1)
      else if run = count then some 0
      else (closingRun count 0 chars).map (· + 1)

/-- The length of the rest of a code span after its first `count` backticks. -/
def codeSpan (count : Nat) : List Char → Option Nat
  | [] => none
  | ch :: chars =>
      if ch = '`' then (codeSpan (count + 1) chars).map (· + 1)
      else closingRun count 0 (ch :: chars)

example : codeSpan 1 "a``b` c".toList = some 5 ∧ codeSpan 1 "`a`b".toList = none := by decide

theorem closingRun_append {last : Char} (hlast : last ≠ '`') {count : Nat} (hcount : count ≠ 0)
    {run length : Nat} {chars : List Char}
    (h : closingRun count run (chars ++ [last]) = some length) (after : List Char) :
    closingRun count run (chars ++ last :: after) = some length := by
  induction chars generalizing run length with
  | nil =>
      rw [List.nil_append, closingRun, if_neg hlast, closingRun, if_neg hcount.symm] at h
      rw [List.nil_append, closingRun, if_neg hlast]
      by_cases hrun : run = count
      · rwa [if_pos hrun] at h ⊢
      · rw [if_neg hrun] at h
        cases h
  | cons ch chars ih =>
      rw [List.cons_append, closingRun] at h ⊢
      by_cases htick : ch = '`'
      · rw [if_pos htick, Option.map_eq_some_iff] at h ⊢
        obtain ⟨rest, hrest, hlength⟩ := h
        exact ⟨rest, ih hrest, hlength⟩
      · rw [if_neg htick] at h ⊢
        by_cases hrun : run = count
        · rwa [if_pos hrun] at h ⊢
        · rw [if_neg hrun, Option.map_eq_some_iff] at h ⊢
          obtain ⟨rest, hrest, hlength⟩ := h
          exact ⟨rest, ih hrest, hlength⟩

/-- A code span that ends before another character ends there whatever follows. -/
theorem codeSpan_append {last : Char} (hlast : last ≠ '`') {count : Nat} (hcount : count ≠ 0)
    {length : Nat} {chars : List Char} (h : codeSpan count (chars ++ [last]) = some length)
    (after : List Char) : codeSpan count (chars ++ last :: after) = some length := by
  induction chars generalizing count length with
  | nil =>
      rw [List.nil_append, codeSpan, if_neg hlast] at h ⊢
      rw [← List.nil_append [last]] at h
      exact closingRun_append hlast hcount h after
  | cons ch chars ih =>
      rw [List.cons_append, codeSpan] at h ⊢
      by_cases htick : ch = '`'
      · rw [if_pos htick, Option.map_eq_some_iff] at h ⊢
        obtain ⟨rest, hrest, hlength⟩ := h
        exact ⟨rest, ih (Nat.succ_ne_zero count) hrest, hlength⟩
      · rw [if_neg htick, ← List.cons_append] at h ⊢
        exact closingRun_append hlast hcount h after

theorem closingRun_of_notMem {count : Nat} (hcount : count ≠ 0) {run : Nat} {chars : List Char}
    (hchars : '`' ∉ chars) :
    closingRun count run chars = if run = count then some 0 else none := by
  induction chars generalizing run with
  | nil => rfl
  | cons ch chars ih =>
      rw [List.mem_cons, not_or] at hchars
      rw [closingRun, if_neg (Ne.symm hchars.1), ih hchars.2, if_neg hcount.symm,
        Option.map_none]

theorem closingRun_append_of_notMem {count : Nat} (hcount : count ≠ 0) {after : List Char}
    (hafter : '`' ∉ after) (run : Nat) (chars : List Char) :
    closingRun count run (chars ++ after) = closingRun count run chars := by
  induction chars generalizing run with
  | nil => exact closingRun_of_notMem hcount hafter
  | cons ch chars ih => rw [List.cons_append, closingRun, closingRun, ih, ih]

/-- Text without backticks ends no code span before it. -/
theorem codeSpan_append_of_notMem {count : Nat} (hcount : count ≠ 0) {after : List Char}
    (hafter : '`' ∉ after) (chars : List Char) :
    codeSpan count (chars ++ after) = codeSpan count chars := by
  induction chars generalizing count with
  | nil =>
      cases after with
      | nil => rfl
      | cons ch after =>
          have htick : ch ≠ '`' := fun h => hafter (h ▸ List.mem_cons_self)
          change codeSpan count (ch :: after) = none
          rw [codeSpan, if_neg htick, closingRun_of_notMem hcount hafter, if_neg hcount.symm]
  | cons ch chars ih =>
      rw [List.cons_append, codeSpan, codeSpan, ih (Nat.succ_ne_zero count),
        ← List.cons_append, closingRun_append_of_notMem hcount hafter]

/-! ## Autolinks and HTML tags -/

/-- What an autolink is inside of, after its `<`. -/
inductive Autolink
  | start
  | scheme (length : Nat)
  | uri
deriving DecidableEq, Repr

def autolinkStep : Autolink → Char → Verdict Autolink Unit
  | .start, ch => if ch.isAlpha then .more (.scheme 1) else .failed
  | .scheme length, ch =>
      if ch = ':' then if 2 ≤ length then .more .uri else .failed
      else if (ch.isAlphanum || ch = '+' || ch = '.' || ch = '-') && length < 32 then
        .more (.scheme (length + 1))
      else .failed
  | .uri, ch =>
      if ch = '>' then .matched ()
      else if isAsciiControl ch || ch = ' ' || ch = '<' then .failed
      else .more .uri

/-- What an email autolink is inside of: the name, or a label of the host with its length
and whether it ends in a hyphen. -/
inductive Email
  | name (length : Nat)
  | label (length : Nat) (hyphen : Bool)
deriving DecidableEq, Repr

def isEmailName (ch : Char) : Bool :=
  ch.isAlphanum || ".!#$%&'*+/=?^_`\x7b|\x7d~-".toList.contains ch

def emailStep : Email → Char → Verdict Email Unit
  | .name length, ch =>
      if ch = '@' then if length = 0 then .failed else .more (.label 0 false)
      else if isEmailName ch then .more (.name (length + 1))
      else .failed
  | .label length hyphen, ch =>
      if ch = '>' then if length = 0 || hyphen then .failed else .matched ()
      else if ch = '.' then if length = 0 || hyphen then .failed else .more (.label 0 false)
      else if 63 ≤ length then .failed
      else if ch.isAlphanum then .more (.label (length + 1) false)
      else if ch = '-' && length ≠ 0 then .more (.label (length + 1) true)
      else .failed

/-- What an HTML tag is inside of, after its `<`: the name, an attribute or its value, a
closing tag, a comment with the dashes just read, an instruction, a declaration, a CDATA
section. -/
inductive Tag
  | start
  | name
  | space
  | attribute
  | attributeSpace
  | equals
  | bare
  | quoted (quote : Char)
  | quoteEnd
  | slash
  | closing
  | closingName
  | closingSpace
  | bang
  | bangDash
  | comment (dashes : Nat)
  | instruction (question : Bool)
  | declaration
  | cdataStart (rest : List Char)
  | cdata (brackets : Nat)
deriving DecidableEq, Repr

def isAttributeStart (ch : Char) : Bool := ch.isAlpha || ch = '_' || ch = ':'

def isAttributeChar (ch : Char) : Bool :=
  ch.isAlphanum || ch = '_' || ch = '.' || ch = ':' || ch = '-'

/-- Where an attribute, the end of the tag or more blanks may stand. -/
def tagSpaceStep (ch : Char) : Verdict Tag Unit :=
  if isBlank ch then .more .space
  else if ch = '/' then .more .slash
  else if ch = '>' then .matched ()
  else if isAttributeStart ch then .more .attribute
  else .failed

/-- After something that only a blank may separate from an attribute. -/
def tagBreakStep (ch : Char) : Verdict Tag Unit :=
  if isAttributeStart ch then .failed else tagSpaceStep ch

def tagStep : Tag → Char → Verdict Tag Unit
  | .start, ch =>
      if ch.isAlpha then .more .name
      else if ch = '/' then .more .closing
      else if ch = '!' then .more .bang
      else if ch = '?' then .more (.instruction false)
      else .failed
  | .name, ch =>
      if ch.isAlphanum || ch = '-' then .more .name else tagBreakStep ch
  | .space, ch => tagSpaceStep ch
  | .attribute, ch =>
      if isAttributeChar ch then .more .attribute
      else if ch = '=' then .more .equals
      else if isBlank ch then .more .attributeSpace
      else tagBreakStep ch
  | .attributeSpace, ch =>
      if isBlank ch then .more .attributeSpace
      else if ch = '=' then .more .equals
      else tagSpaceStep ch
  | .equals, ch =>
      if isBlank ch then .more .equals
      else if ch = '"' || ch = '\'' then .more (.quoted ch)
      else if ch = '=' || ch = '<' || ch = '>' || ch = '`' then .failed
      else .more .bare
  | .bare, ch =>
      if isBlank ch then .more .space
      else if ch = '>' then .matched ()
      else if ch = '"' || ch = '\'' || ch = '=' || ch = '<' || ch = '`' then .failed
      else .more .bare
  | .quoted quote, ch => if ch = quote then .more .quoteEnd else .more (.quoted quote)
  | .quoteEnd, ch => tagBreakStep ch
  | .slash, ch => if ch = '>' then .matched () else .failed
  | .closing, ch => if ch.isAlpha then .more .closingName else .failed
  | .closingName, ch =>
      if ch.isAlphanum || ch = '-' then .more .closingName
      else if isBlank ch then .more .closingSpace
      else if ch = '>' then .matched ()
      else .failed
  | .closingSpace, ch =>
      if isBlank ch then .more .closingSpace
      else if ch = '>' then .matched ()
      else .failed
  | .bang, ch =>
      if ch = '-' then .more .bangDash
      else if ch = '[' then .more (.cdataStart "CDATA[".toList)
      else if ch.isAlpha then .more .declaration
      else .failed
  -- `<!-->` and `<!--->` are comments too
  | .bangDash, ch => if ch = '-' then .more (.comment 2) else .failed
  | .comment dashes, ch =>
      if ch = '-' then .more (.comment (dashes + 1))
      else if ch = '>' && 2 ≤ dashes then .matched ()
      else .more (.comment 0)
  | .instruction question, ch =>
      if ch = '>' && question then .matched () else .more (.instruction (ch = '?'))
  | .declaration, ch => if ch = '>' then .matched () else .more .declaration
  | .cdataStart [], ch => if ch = ']' then .more (.cdata 1) else .more (.cdata 0)
  | .cdataStart (expected :: rest), ch =>
      if ch = expected then .more (.cdataStart rest) else .failed
  | .cdata brackets, ch =>
      if ch = ']' then .more (.cdata (brackets + 1))
      else if ch = '>' && 2 ≤ brackets then .matched ()
      else .more (.cdata 0)

/-- What a text after a `<` begins: an autolink, an email autolink, a tag. -/
def angleMatches (chars : List Char) : List (PrefixMatch Unit) :=
  [PrefixMatch.run autolinkStep .start chars, PrefixMatch.run emailStep (.name 0) chars,
    PrefixMatch.run tagStep .start chars]

/-- The length of the rest of the autolink or tag that a `<` before a text begins. -/
def angle (chars : List Char) : Option Nat :=
  (angleMatches chars).findSome? fun found => found.get?.map Prod.fst

example : angle "a href='x>y' b=c/>d".toList = some 18 ∧ angle "https://a.b>".toList = some 12 ∧
    angle "a@b.c>".toList = some 6 ∧ angle "!-->".toList = some 4 ∧
    angle " b>".toList = none := by decide

section Verdicts

variable {ch : Char} {value : Unit}

theorem eq_of_autolinkStep_matched {state : Autolink}
    (h : autolinkStep state ch = .matched value) : ch = '>' := by
  cases state <;> (simp only [autolinkStep] at h; grind)

theorem eq_of_emailStep_matched {state : Email} (h : emailStep state ch = .matched value) :
    ch = '>' := by
  cases state <;> (simp only [emailStep] at h; grind)

theorem eq_of_tagSpaceStep_matched (h : tagSpaceStep ch = .matched value) : ch = '>' := by
  rw [tagSpaceStep] at h
  grind

theorem eq_of_tagBreakStep_matched (h : tagBreakStep ch = .matched value) : ch = '>' := by
  rw [tagBreakStep] at h
  split at h
  next => cases h
  next => exact eq_of_tagSpaceStep_matched h

theorem eq_of_tagStep_matched {state : Tag} (h : tagStep state ch = .matched value) :
    ch = '>' := by
  have hspace := @eq_of_tagSpaceStep_matched ch value
  have hbreak := @eq_of_tagBreakStep_matched ch value
  cases state with
  | cdataStart rest => cases rest <;> (simp only [tagStep] at h; grind)
  | _ =>
      simp only [tagStep] at h
      grind

end Verdicts

/-- Text that decides what begins after a `<` decides it whatever follows. -/
theorem angleMatches_append {chars : List Char}
    (h : ∀ found ∈ angleMatches chars, found ≠ .unended) (after : List Char) :
    angleMatches (chars ++ after) = angleMatches chars := by
  simp only [angleMatches, List.forall_mem_cons] at h
  obtain ⟨hlink, hemail, htag, -⟩ := h
  rw [angleMatches, PrefixMatch.run_append hlink, PrefixMatch.run_append hemail,
    PrefixMatch.run_append htag, angleMatches]

/-- Text without a `>` ends no tag before it. -/
theorem angle_append_of_notMem {after : List Char} (hafter : '>' ∉ after) (chars : List Char) :
    angle (chars ++ after) = angle chars := by
  simp only [angle, angleMatches, List.findSome?_cons,
    PrefixMatch.get?_run_append_of_notMem (fun _ _ _ => eq_of_autolinkStep_matched) hafter,
    PrefixMatch.get?_run_append_of_notMem (fun _ _ _ => eq_of_emailStep_matched) hafter,
    PrefixMatch.get?_run_append_of_notMem (fun _ _ _ => eq_of_tagStep_matched) hafter]

/-! ## Destinations -/

/-- What the part of a link after its closing bracket is inside of: a destination, with its
open parentheses or in angle brackets, or a title. -/
inductive Tail
  | start
  | opened
  | dest (dest : List Char) (depth : Nat)
  | destEscape (dest : List Char) (depth : Nat)
  | pointy (dest : List Char)
  | pointyEscape (dest : List Char)
  | pointyEnd (dest : List Char)
  | space (dest : List Char)
  | title (dest : List Char) (close : Char)
  | titleEscape (dest : List Char) (close : Char)
  | titleEnd (dest : List Char)
deriving DecidableEq, Repr

def destStep (dest : List Char) (depth : Nat) (ch : Char) : Verdict Tail (List Char) :=
  if isBlank ch then if depth = 0 then .more (.space dest) else .failed
  else if isAsciiControl ch then .failed
  else if ch = '\\' then .more (.destEscape dest depth)
  else if ch = '(' then .more (.dest (dest ++ [ch]) (depth + 1))
  else if ch = ')' then
    if depth = 0 then .matched dest else .more (.dest (dest ++ [ch]) (depth - 1))
  else .more (.dest (dest ++ [ch]) depth)

def tailStep : Tail → Char → Verdict Tail (List Char)
  | .start, ch => if ch = '(' then .more .opened else .failed
  | .opened, ch =>
      if isBlank ch then .more .opened
      else if ch = '<' then .more (.pointy [])
      else destStep [] 0 ch
  | .dest dest depth, ch => destStep dest depth ch
  | .destEscape dest depth, ch =>
      if isPunctuation ch then .more (.dest (dest ++ [ch]) depth)
      else destStep (dest ++ ['\\']) depth ch
  | .pointy dest, ch =>
      if ch = '>' then .more (.pointyEnd dest)
      else if ch = '<' then .failed
      else if ch = '\\' then .more (.pointyEscape dest)
      else .more (.pointy (dest ++ [ch]))
  | .pointyEscape dest, ch =>
      .more (.pointy (dest ++ if isPunctuation ch then [ch] else ['\\', ch]))
  | .pointyEnd dest, ch =>
      if ch = ')' then .matched dest
      else if isBlank ch then .more (.space dest)
      else .failed
  | .space dest, ch =>
      if ch = ')' then .matched dest
      else if isBlank ch then .more (.space dest)
      else if ch = '"' || ch = '\'' then .more (.title dest ch)
      else if ch = '(' then .more (.title dest ')')
      else .failed
  | .title dest close, ch =>
      if ch = close then .more (.titleEnd dest)
      else if ch = '(' && close = ')' then .failed
      else if ch = '\\' then .more (.titleEscape dest close)
      else .more (.title dest close)
  | .titleEscape dest close, _ => .more (.title dest close)
  | .titleEnd dest, ch =>
      if ch = ')' then .matched dest
      else if isBlank ch then .more (.titleEnd dest)
      else .failed

/-- The destination in the parentheses a text begins with, and their length. -/
def linkTail (chars : List Char) : Option (Nat × List Char) :=
  (PrefixMatch.run tailStep .start chars).get?

example : linkTail "(a(b)\\) 'c)') d".toList = some (13, "a(b))".toList) ∧
    linkTail "(<b c>)".toList = some (7, "b c".toList) ∧ linkTail "()".toList = some (2, []) ∧
    linkTail "(b c)".toList = none ∧ linkTail "(b(c)".toList = none := by decide

theorem eq_of_destStep_matched {dest value : List Char} {depth : Nat} {ch : Char}
    (h : destStep dest depth ch = .matched value) : ch = ')' := by
  rw [destStep] at h
  grind

theorem eq_of_tailStep_matched {state : Tail} {ch : Char} {value : List Char}
    (h : tailStep state ch = .matched value) : ch = ')' := by
  have hdest := @eq_of_destStep_matched
  cases state <;> (simp only [tailStep] at h; grind)

/-- Text without a `)` ends no link before it. -/
theorem linkTail_append_of_notMem {after : List Char} (hafter : ')' ∉ after)
    (chars : List Char) : linkTail (chars ++ after) = linkTail chars :=
  PrefixMatch.get?_run_append_of_notMem (fun _ _ _ => eq_of_tailStep_matched) hafter _ _

theorem linkTail_of_notMem {chars : List Char} (hchars : ')' ∉ chars) : linkTail chars = none :=
  PrefixMatch.get?_run_of_notMem (fun _ _ _ => eq_of_tailStep_matched) hchars

/-- A character of a destination that needs no escape. -/
def isDestChar (ch : Char) : Bool :=
  !isBlank ch && !isAsciiControl ch && ch != '\\' && ch != '(' && ch != ')'

theorem destStep_of_isDestChar {ch : Char} (hch : isDestChar ch) (dest : List Char)
    (depth : Nat) : destStep dest depth ch = .more (.dest (dest ++ [ch]) depth) := by
  simp only [isDestChar, Bool.and_eq_true, Bool.not_eq_true', bne_iff_ne, ne_eq] at hch
  obtain ⟨⟨⟨⟨hblank, hcontrol⟩, hescape⟩, hopen⟩, hclose⟩ := hch
  simp [destStep, hblank, hcontrol, hescape, hopen, hclose]

theorem run_dest {dest : List Char} (hdest : ∀ ch ∈ dest, isDestChar ch)
    (start after : List Char) :
    PrefixMatch.run tailStep (.dest start 0) (dest ++ ')' :: after) =
      .matched (dest.length + 1) (start ++ dest) := by
  induction dest generalizing start with
  | nil =>
      rw [List.append_nil]
      rfl
  | cons ch dest ih =>
      obtain ⟨hch, hrest⟩ := List.forall_mem_cons.mp hdest
      rw [List.cons_append, PrefixMatch.run, tailStep, destStep_of_isDestChar hch,
        PrefixMatch.ofVerdict, ih hrest, PrefixMatch.next, List.append_assoc]
      rfl

/-- A destination of plain characters in parentheses. -/
theorem linkTail_dest {dest : List Char} (hdest : ∀ ch ∈ dest, isDestChar ch)
    (hpointy : dest.head? ≠ some '<') (after : List Char) :
    linkTail ('(' :: (dest ++ ')' :: after)) = some (dest.length + 2, dest) := by
  have hrun : PrefixMatch.run tailStep .opened (dest ++ ')' :: after) =
      .matched (dest.length + 1) dest := by
    cases dest with
    | nil => rfl
    | cons ch dest =>
        obtain ⟨hch, hrest⟩ := List.forall_mem_cons.mp hdest
        have hblank : isBlank ch = false := by
          simp only [isDestChar, Bool.and_eq_true, Bool.not_eq_true'] at hch
          exact hch.1.1.1.1
        have hopened : tailStep .opened ch = .more (.dest [ch] 0) := by
          rw [tailStep, hblank, if_neg Bool.false_ne_true,
            if_neg (fun h => hpointy (congrArg some h)), destStep_of_isDestChar hch]
          rfl
        rw [List.cons_append, PrefixMatch.run, hopened, PrefixMatch.ofVerdict, run_dest hrest]
        rfl
  have hstart : PrefixMatch.run tailStep .start ('(' :: (dest ++ ')' :: after)) =
      (PrefixMatch.run tailStep .opened (dest ++ ')' :: after)).next := rfl
  rw [linkTail, hstart, hrun]
  rfl

end InlineLinks
