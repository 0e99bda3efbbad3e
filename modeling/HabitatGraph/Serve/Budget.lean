import HabitatGraph.Core.Sanitize
import HabitatGraph.Foundation.GreedyPrefix
import HabitatGraph.Foundation.Template

/-! # Token-budgeted packing

A client that names a number of tokens gets the most relevant results that fit.
Tokens are estimated from the bytes of a text, and results are taken in order
until one exceeds the budget.
-/

namespace HabitatGraph

open GreedyPrefix Template

/-- The largest machine word. -/
def usizeMax : Nat := 2 ^ 64 - 1

def saturatingAdd (a b : Nat) : Nat := min (a + b) usizeMax

/-- A token for every four bytes begun. -/
def estimateTokens (text : Text) : Nat := ((render text).utf8ByteSize + 3) / 4

/-- Append candidates as long as they fit, and count them. -/
def packLoop (maxTokens : Nat) : Text → Nat → Nat → List Text → Text × Nat
  | out, _, included, [] => (out, included)
  | out, used, included, cand :: candidates =>
      let cost := estimateTokens cand
      if saturatingAdd used cost > maxTokens then (out, included)
      else packLoop maxTokens (out ++ cand) (saturatingAdd used cost) (included + 1) candidates

/-- The line that says how much was left out. -/
def omittedNote (dropped maxTokens : Nat) : Text :=
  [.literal "… ", .argument (toString dropped), .literal " more omitted (token budget ",
    .argument (toString maxTokens), .literal ")\n"]

/-- The header, the seed and the candidates that fit. -/
def pack (header : Text) (seed : Option Text) (candidates : List Text) (maxTokens : Nat) : Text :=
  let start : Text × Nat := match seed with
    | some s => (header ++ s, saturatingAdd (estimateTokens header) (estimateTokens s))
    | none => (header, estimateTokens header)
  let packed := packLoop maxTokens start.1 start.2 0 candidates
  let dropped := candidates.length - packed.2
  if dropped > 0 then packed.1 ++ omittedNote dropped maxTokens else packed.1

/-- The candidates taken are those that fit. -/
theorem packLoop_eq (maxTokens : Nat) (out : Text) (used included : Nat) (candidates : List Text) :
    packLoop maxTokens out used included candidates =
      (out ++ (candidates.take (fitting estimateTokens usizeMax maxTokens used candidates)).flatten,
        included + fitting estimateTokens usizeMax maxTokens used candidates) := by
  induction candidates generalizing out used included with
  | nil => simp [packLoop, fitting]
  | cons cand candidates ih =>
      by_cases hover : maxTokens < saturatingAdd used (estimateTokens cand)
      · have hstop : maxTokens < min (used + estimateTokens cand) usizeMax := hover
        simp only [packLoop, fitting, if_pos hover, if_pos hstop]
        simp
      · have hgoes : ¬ maxTokens < min (used + estimateTokens cand) usizeMax := hover
        simp only [packLoop, fitting, if_neg hover, if_neg hgoes, ih]
        simp [saturatingAdd, Nat.add_assoc, Nat.add_comm 1]

/-! ## Clean output -/

theorem clean_omittedNote (dropped maxTokens : Nat) :
    Clean isRenderDangerous (omittedNote dropped maxTokens) := by
  simp +decide only [omittedNote, clean_literal_cons, clean_argument_iff, clean_nil,
    renderSafe_toString, and_self]

/-- The line at place `k` is shown: the first one always is, another one when all
lines up to it fit. -/
def LineFits (header : Text) (lines : List Text) (maxTokens k : Nat) : Prop :=
  k = 0 ∨ min (estimateTokens header + ((lines.take (k + 1)).map estimateTokens).sum) usizeMax ≤
    maxTokens

theorem lineFits_succ_iff {header seed : Text} {candidates : List Text} {maxTokens k : Nat}
    (hk : k < candidates.length) :
    LineFits header (seed :: candidates) maxTokens (k + 1) ↔
      k < fitting estimateTokens usizeMax maxTokens
        (saturatingAdd (estimateTokens header) (estimateTokens seed)) candidates := by
  rw [lt_fitting_iff hk, LineFits, List.take_succ_cons, List.map_cons, List.sum_cons, saturatingAdd]
  omega

/-- What is packed is clean exactly when the header and the lines shown are. -/
theorem clean_pack_iff {header : Text} {lines : List Text} {maxTokens : Nat} :
    Clean isRenderDangerous (pack header lines.head? lines.tail maxTokens) ↔
      Clean isRenderDangerous header ∧
        ∀ k line, lines[k]? = some line → LineFits header lines maxTokens k →
          Clean isRenderDangerous line := by
  cases lines with
  | nil => simp [pack, packLoop]
  | cons seed candidates =>
      have hpack : Clean isRenderDangerous (pack header (some seed) candidates maxTokens) ↔
          Clean isRenderDangerous header ∧ Clean isRenderDangerous seed ∧
            ∀ k cand, candidates[k]? = some cand →
              k < fitting estimateTokens usizeMax maxTokens
                (saturatingAdd (estimateTokens header) (estimateTokens seed)) candidates →
              Clean isRenderDangerous cand := by
        rw [← clean_flatten_take_iff]
        simp only [pack, packLoop_eq, clean_ite, clean_append, clean_omittedNote, and_true]
        grind
      rw [List.head?_cons, List.tail_cons, hpack]
      apply and_congr_right
      intro _
      constructor
      · rintro ⟨hseed, hcandidates⟩ k line hline hfits
        cases k with
        | zero =>
            cases hline
            exact hseed
        | succ k =>
            rw [List.getElem?_cons_succ] at hline
            have hk := (List.getElem?_eq_some_iff.mp hline).1
            exact hcandidates k line hline ((lineFits_succ_iff hk).mp hfits)
      · intro h
        refine ⟨h 0 seed rfl (Or.inl rfl), fun k cand hcand hlt => ?_⟩
        have hk := (List.getElem?_eq_some_iff.mp hcand).1
        exact h (k + 1) cand hcand ((lineFits_succ_iff hk).mpr hlt)

/-! ## The promise of the budget

The budget is spent on the header, the seed and the candidates taken. The note that
says what was dropped is written after them, out of the budget.
-/

/-- The bytes of a text. -/
def textBytes (text : Text) : Nat := (render text).utf8ByteSize

@[simp] theorem textBytes_nil : textBytes [] = 0 := rfl

@[simp] theorem textBytes_append (text text' : Text) :
    textBytes (text ++ text') = textBytes text + textBytes text' := by
  simp only [textBytes, render, List.flatMap_append, String.ofList_append,
    String.utf8ByteSize_append]

theorem textBytes_flatten (texts : List Text) :
    textBytes texts.flatten = (texts.map textBytes).sum := by
  induction texts with
  | nil => rfl
  | cons text texts ih =>
      rw [List.flatten_cons, textBytes_append, ih, List.map_cons, List.sum_cons]

theorem estimateTokens_le_iff {text : Text} {maxTokens : Nat} :
    estimateTokens text ≤ maxTokens ↔ textBytes text ≤ 4 * maxTokens := by
  unfold estimateTokens textBytes
  omega

theorem estimateTokens_le_textBytes (text : Text) : estimateTokens text ≤ textBytes text := by
  unfold estimateTokens textBytes
  omega

section Promise

variable (header : Text) (seed : Option Text) (candidates : List Text)

/-- What a size of texts sums to over the header, the seed and the first `n`
candidates. -/
def upTo (size : Text → Nat) (n : Nat) : Nat :=
  size header + seed.elim 0 size + ((candidates.take n).map size).sum

/-- The tokens spent before the first candidate, and how many candidates are taken. -/
def spent : Nat :=
  seed.elim (estimateTokens header) fun s =>
    saturatingAdd (estimateTokens header) (estimateTokens s)

def taken (maxTokens : Nat) : Nat :=
  fitting estimateTokens usizeMax maxTokens (spent header seed) candidates

/-- Where the candidates stop to fit, the note about the others still does. -/
def NoteFits (maxTokens : Nat) : Prop :=
  ∀ n < candidates.length,
    upTo header seed candidates estimateTokens n ≤ maxTokens →
    maxTokens < upTo header seed candidates estimateTokens (n + 1) →
      upTo header seed candidates textBytes n +
        textBytes (omittedNote (candidates.length - n) maxTokens) ≤ 4 * maxTokens

theorem upTo_le_upTo {c : Nat} (size size' : Text → Nat)
    (hle : ∀ text, size text ≤ c * size' text) (n : Nat) :
    upTo header seed candidates size n ≤ c * upTo header seed candidates size' n := by
  have hsum : ∀ texts : List Text, (texts.map size).sum ≤ c * (texts.map size').sum := by
    intro texts
    induction texts with
    | nil => exact Nat.zero_le _
    | cons text texts ih =>
        have := hle text
        rw [List.map_cons, List.map_cons, List.sum_cons, List.sum_cons, Nat.mul_add]
        omega
  have hseed : seed.elim 0 size ≤ c * seed.elim 0 size' := by
    cases seed with
    | none => exact Nat.zero_le _
    | some s => exact hle s
  have hheader := hle header
  have hcandidates := hsum (candidates.take n)
  rw [upTo, upTo, Nat.mul_add, Nat.mul_add]
  omega

theorem upTo_le_all (size : Text → Nat) (n : Nat) :
    upTo header seed candidates size n ≤
      upTo header seed candidates size candidates.length := by
  have hsplit := congrArg (fun texts => (texts.map size).sum) (List.take_append_drop n candidates)
  simp only [List.map_append, List.sum_append] at hsplit
  rw [upTo, upTo, List.take_length]
  omega

theorem taken_le_length (maxTokens : Nat) :
    taken header seed candidates maxTokens ≤ candidates.length := fitting_le_length

/-- The candidates taken fit, and they end where the next one does not. -/
theorem taken_spec {maxTokens : Nat}
    (hbase : estimateTokens header + seed.elim 0 estimateTokens ≤ maxTokens)
    (hmemory : upTo header seed candidates textBytes candidates.length ≤ usizeMax) :
    upTo header seed candidates estimateTokens (taken header seed candidates maxTokens) ≤
        maxTokens ∧
      ∀ n < candidates.length, taken header seed candidates maxTokens = n ↔
        upTo header seed candidates estimateTokens n ≤ maxTokens ∧
          maxTokens < upTo header seed candidates estimateTokens (n + 1) := by
  have hcost : ∀ n, upTo header seed candidates estimateTokens n ≤ usizeMax := by
    intro n
    have hbytes := upTo_le_upTo header seed candidates estimateTokens textBytes
      (fun text => (estimateTokens_le_textBytes text).trans_eq (Nat.one_mul _).symm) n
    have hall := upTo_le_all header seed candidates textBytes n
    omega
  -- what the loop has added up never saturates
  have hsum : ∀ n,
      min (spent header seed + ((candidates.take n).map estimateTokens).sum) usizeMax =
        upTo header seed candidates estimateTokens n := by
    intro n
    have hn := hcost n
    cases seed <;> simp only [upTo, spent, saturatingAdd, Option.elim] at hn ⊢ <;> omega
  have hspent : min (spent header seed) usizeMax ≤ maxTokens := by
    have hzero := hsum 0
    simp only [upTo, List.take_zero, List.map_nil, List.sum_nil, Nat.add_zero] at hzero
    omega
  refine ⟨?_, fun n hn => ?_⟩
  · rw [← hsum]
    exact sum_take_le_of_le_fitting hspent (Nat.le_refl _)
  · rw [← hsum, ← hsum]
    exact fitting_eq_iff hspent hn

/-- What is packed: the header, the seed, the candidates taken, and the note when
there are others. -/
theorem pack_eq (maxTokens : Nat) :
    pack header seed candidates maxTokens =
      header ++ seed.getD [] ++
        (candidates.take (taken header seed candidates maxTokens)).flatten ++
        if taken header seed candidates maxTokens < candidates.length then
          omittedNote (candidates.length - taken header seed candidates maxTokens) maxTokens
        else [] := by
  cases seed with
  | none =>
      simp only [pack, packLoop_eq, Nat.zero_add, Nat.sub_pos_iff_lt, gt_iff_lt]
      split
      next hdropped => simp [taken, spent, hdropped]
      next hall => simp [taken, spent, hall]
  | some s =>
      simp only [pack, packLoop_eq, Nat.zero_add, Nat.sub_pos_iff_lt, gt_iff_lt]
      split
      next hdropped => simp [taken, spent, hdropped]
      next hall => simp [taken, spent, hall]

theorem textBytes_taken (maxTokens : Nat) :
    textBytes (header ++ seed.getD [] ++
        (candidates.take (taken header seed candidates maxTokens)).flatten) =
      upTo header seed candidates textBytes (taken header seed candidates maxTokens) := by
  rw [textBytes_append, textBytes_append, textBytes_flatten, upTo]
  cases seed <;> rfl

/-- The text that is packed keeps to the budget exactly when the note does, where one
is written. The header and the seed fit on their own, the candidates are arbitrary, and
all the texts lie in one address space. -/
theorem pack_withinBudget_iff (maxTokens : Nat)
    (hbase : estimateTokens header + seed.elim 0 estimateTokens ≤ maxTokens)
    (hmemory : upTo header seed candidates textBytes candidates.length ≤ usizeMax) :
    estimateTokens (pack header seed candidates maxTokens) ≤ maxTokens ↔
      NoteFits header seed candidates maxTokens := by
  obtain ⟨hcost, hends⟩ := taken_spec header seed candidates hbase hmemory
  rw [estimateTokens_le_iff, pack_eq, textBytes_append, textBytes_taken]
  split
  next hdropped =>
    constructor
    · intro hfits n hn hle hlt
      rw [← (hends n hn).mpr ⟨hle, hlt⟩]
      exact hfits
    · intro hnote
      have hend := (hends _ hdropped).mp rfl
      exact hnote _ hdropped hend.1 hend.2
  next hall =>
    have hbytes := upTo_le_upTo header seed candidates textBytes estimateTokens
      (fun text => estimateTokens_le_iff.mp (Nat.le_refl (estimateTokens text)))
      (taken header seed candidates maxTokens)
    constructor
    · intro _ n hn hle hlt
      have := (hends n hn).mpr ⟨hle, hlt⟩
      omega
    · intro _
      rw [textBytes_nil]
      omega

/-- What the estimates of the header, the seed and the first `n` candidates sum to,
in saturating addition. -/
def summedEstimate (n : Nat) : Nat :=
  min (upTo header seed candidates estimateTokens n) usizeMax

/-- The sum only saturates at a budget without bound. -/
theorem summedEstimate_le_iff {maxTokens n : Nat} (hbound : maxTokens < usizeMax) :
    summedEstimate header seed candidates n ≤ maxTokens ↔
      upTo header seed candidates estimateTokens n ≤ maxTokens := by
  rw [summedEstimate]
  omega

theorem summedEstimate_eq (n : Nat) :
    summedEstimate header seed candidates n =
      min (spent header seed + ((candidates.take n).map estimateTokens).sum) usizeMax := by
  cases seed <;> simp only [summedEstimate, upTo, spent, saturatingAdd, Option.elim] <;> omega

theorem isGreatest_taken (maxTokens : Nat) :
    IsGreatest {n | n ≤ candidates.length ∧
        ∀ m, 0 < m → m ≤ n → summedEstimate header seed candidates m ≤ maxTokens}
      (taken header seed candidates maxTokens) := by
  simp only [summedEstimate_eq]
  exact isGreatest_fitting

end Promise

theorem render_append (text text' : Text) :
    render (text ++ text') = render text ++ render text' := by
  simp only [render, List.flatMap_append, String.ofList_append]

theorem render_flatten (texts : List Text) :
    (render texts.flatten).toList = texts.flatMap fun text => (render text).toList := by
  induction texts with
  | nil => rfl
  | cons text texts ih =>
      rw [List.flatten_cons, render_append, String.toList_append, ih, List.flatMap_cons]

theorem render_omittedNote (dropped maxTokens : Nat) :
    (render (omittedNote dropped maxTokens)).toList =
      "… ".toList ++ (toString dropped).toList ++ " more omitted (token budget ".toList ++
        (toString maxTokens).toList ++ ")\n".toList := by
  simp only [render, omittedNote, List.flatMap_cons, List.flatMap_nil, Piece.chars,
    String.toList_ofList, List.append_nil, List.append_assoc]

/-- The longest prefix of the candidates is shown all of whose prefixes fit, and a larger
budget shows no fewer of them. Header, seed, candidates and budget are arbitrary, so this
also says what is shown when the header alone is too large. -/
theorem pack_longestPrefix (header : Text) (seed : Option Text) (candidates : List Text) :
    ∃ shown : Nat → Nat,
      (∀ maxTokens,
        IsGreatest {n | n ≤ candidates.length ∧
            ∀ m, 0 < m → m ≤ n → summedEstimate header seed candidates m ≤ maxTokens}
          (shown maxTokens) ∧
        (render (pack header seed candidates maxTokens)).toList =
          (render header).toList ++ seed.elim [] (fun s => (render s).toList) ++
            (candidates.take (shown maxTokens)).flatMap (fun cand => (render cand).toList) ++
            if shown maxTokens < candidates.length then
              "… ".toList ++ (toString (candidates.length - shown maxTokens)).toList ++
                " more omitted (token budget ".toList ++ (toString maxTokens).toList ++
                ")\n".toList
            else []) ∧
      Monotone shown := by
  refine ⟨taken header seed candidates, fun maxTokens => ⟨?_, ?_⟩, ?_⟩
  · exact isGreatest_taken header seed candidates maxTokens
  · have hseed : (render (seed.getD [])).toList = seed.elim [] fun s => (render s).toList := by
      cases seed <;> rfl
    rw [pack_eq, render_append, render_append, render_append, String.toList_append,
      String.toList_append, String.toList_append, render_flatten, hseed]
    split
    next => rw [render_omittedNote]
    next => rfl
  · exact fitting_mono

theorem pack_withinBudget_iff_header :
    estimateTokens (pack [.literal "h\n"] none [[.literal "line\n"]] 1) ≤ 1 ↔
      NoteFits [.literal "h\n"] none [[.literal "line\n"]] 1 :=
  pack_withinBudget_iff _ none _ 1 (by decide) (by decide)

/-- A header of one token and a candidate that is dropped fill ten tokens of a budget
of one. -/
theorem pack_overBudget :
    estimateTokens [.literal "h\n"] = 1 ∧
    estimateTokens (pack [.literal "h\n"] none [[.literal "line\n"]] 1) = 10 ∧
    ¬ ∀ header seed candidates maxTokens,
        estimateTokens header + seed.elim 0 estimateTokens ≤ maxTokens →
          estimateTokens (pack header seed candidates maxTokens) ≤ maxTokens := by
  have hcost : estimateTokens [.literal "h\n"] = 1 := by decide
  have hpack : estimateTokens (pack [.literal "h\n"] none [[.literal "line\n"]] 1) = 10 := by
    decide
  refine ⟨hcost, hpack, fun h => ?_⟩
  have hle := h [.literal "h\n"] none [[.literal "line\n"]] 1 (by decide)
  rw [hpack] at hle
  omega

end HabitatGraph
