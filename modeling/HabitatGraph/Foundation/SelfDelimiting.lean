import Mathlib.Data.List.Basic
import Mathlib.Tactic.Ring

/-! # Self-delimiting byte encodings

An encoding is self-delimiting on a set of values when the code of a value can be
cut off the front of any byte string in one way only. Fixed-width integers,
length-prefixed strings and counted lists are, and a record whose fields are
written one after another by such encodings determines every field.
-/

namespace SelfDelimiting

variable {α β : Type*}

/-- On `values`, equal streams that start with a code start with the code of one
value and go on in the same way. -/
def SelfDelimitingOn (values : Set α) (encode : α → List UInt8) : Prop :=
  ∀ ⦃a⦄, a ∈ values → ∀ ⦃b⦄, b ∈ values → ∀ ⦃rest rest' : List UInt8⦄,
    encode a ++ rest = encode b ++ rest' → a = b ∧ rest = rest'

theorem SelfDelimitingOn.injOn {values : Set α} {encode : α → List UInt8}
    (hencode : SelfDelimitingOn values encode) : Set.InjOn encode values := by
  intro a ha b hb heq
  exact (hencode ha hb (congrArg (· ++ []) heq)).1

/-- Codes of one length are cut off by it. -/
theorem selfDelimitingOn_of_length {values : Set α} {encode : α → List UInt8} {width : Nat}
    (hlength : ∀ a ∈ values, (encode a).length = width) (hinj : Set.InjOn encode values) :
    SelfDelimitingOn values encode := by
  intro a ha b hb rest rest' heq
  obtain ⟨hcode, hrest⟩ := List.append_inj heq ((hlength a ha).trans (hlength b hb).symm)
  exact ⟨hinj ha hb hcode, hrest⟩

/-! ## Little-endian integers -/

/-- The lowest `width` bytes of a number, least significant first. -/
def leBytes : Nat → Nat → List UInt8
  | 0, _ => []
  | width + 1, n => UInt8.ofNat n :: leBytes width (n / 256)

@[simp] theorem length_leBytes (width n : Nat) : (leBytes width n).length = width := by
  induction width generalizing n with
  | zero => rfl
  | succ width ih => simp [leBytes, ih]

theorem injOn_leBytes (width : Nat) : Set.InjOn (leBytes width) {n | n < 256 ^ width} := by
  induction width with
  | zero =>
      intro n hn m hm _
      simp only [pow_zero, Set.mem_ofPred_eq] at hn hm
      omega
  | succ width ih =>
      intro n hn m hm heq
      simp only [Set.mem_ofPred_eq, pow_succ] at hn hm
      obtain ⟨hlow, hhigh⟩ := List.cons_eq_cons.mp heq
      have hdiv : n / 256 = m / 256 :=
        ih (Nat.div_lt_of_lt_mul (by omega)) (Nat.div_lt_of_lt_mul (by omega)) hhigh
      have hmod : n % 256 = m % 256 := by
        simpa using congrArg UInt8.toNat hlow
      omega

theorem selfDelimitingOn_leBytes (width : Nat) :
    SelfDelimitingOn {n | n < 256 ^ width} (leBytes width) :=
  selfDelimitingOn_of_length (fun n _ => length_leBytes width n) (injOn_leBytes width)

/-! ## Strings and lists behind their length -/

/-- A byte string behind its length in `width` bytes. -/
def framed (width : Nat) (bytes : List UInt8) : List UInt8 :=
  leBytes width bytes.length ++ bytes

theorem selfDelimitingOn_framed (width : Nat) :
    SelfDelimitingOn {bytes | bytes.length < 256 ^ width} (framed width) := by
  intro a ha b hb rest rest' heq
  rw [framed, framed, List.append_assoc, List.append_assoc] at heq
  obtain ⟨hlength, heq⟩ := selfDelimitingOn_leBytes width ha hb heq
  exact List.append_inj heq hlength

/-- Two code sequences that start equal streams agree until one of them ends. -/
theorem SelfDelimitingOn.flatMap_append {values : Set α} {encode : α → List UInt8}
    (hencode : SelfDelimitingOn values encode) {xs ys : List α} (hxs : ∀ x ∈ xs, x ∈ values)
    (hys : ∀ y ∈ ys, y ∈ values) {rest rest' : List UInt8}
    (heq : xs.flatMap encode ++ rest = ys.flatMap encode ++ rest') :
    (∃ zs, xs = ys ++ zs ∧ rest' = zs.flatMap encode ++ rest) ∨
      (∃ zs, ys = xs ++ zs ∧ rest = zs.flatMap encode ++ rest') := by
  induction xs generalizing ys with
  | nil => exact Or.inr ⟨ys, rfl, heq⟩
  | cons x xs ih =>
      cases ys with
      | nil => exact Or.inl ⟨x :: xs, rfl, heq.symm⟩
      | cons y ys =>
          rw [List.forall_mem_cons] at hxs hys
          simp only [List.flatMap_cons, List.append_assoc] at heq
          obtain ⟨rfl, htail⟩ := hencode hxs.1 hys.1 heq
          rcases ih hxs.2 hys.2 htail with ⟨zs, rfl, hzs⟩ | ⟨zs, rfl, hzs⟩
          · exact Or.inl ⟨zs, rfl, hzs⟩
          · exact Or.inr ⟨zs, rfl, hzs⟩

/-- A list behind its number of elements in `width` bytes. -/
def counted (width : Nat) (encode : α → List UInt8) (xs : List α) : List UInt8 :=
  leBytes width xs.length ++ xs.flatMap encode

theorem SelfDelimitingOn.counted {values : Set α} {encode : α → List UInt8}
    (hencode : SelfDelimitingOn values encode) (width : Nat) :
    SelfDelimitingOn {xs | xs.length < 256 ^ width ∧ ∀ x ∈ xs, x ∈ values}
      (counted width encode) := by
  intro xs hxs ys hys rest rest' heq
  simp only [SelfDelimiting.counted, List.append_assoc] at heq
  obtain ⟨hlength, heq⟩ := selfDelimitingOn_leBytes width hxs.1 hys.1 heq
  -- equal counts leave neither list a continuation
  rcases hencode.flatMap_append hxs.2 hys.2 heq with ⟨zs, rfl, hzs⟩ | ⟨zs, rfl, hzs⟩
  · have hnil : zs = [] := by simpa using hlength
    subst hnil
    exact ⟨List.append_nil ys, hzs.symm⟩
  · have hnil : zs = [] := by simpa using hlength
    subst hnil
    exact ⟨(List.append_nil xs).symm, hzs⟩

end SelfDelimiting
