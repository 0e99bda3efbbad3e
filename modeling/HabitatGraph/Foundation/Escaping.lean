import Mathlib.Data.List.Basic

/-! # Escaping

Every dangerous letter of a text is replaced by an escape and the other letters
stay. When no escape holds a dangerous letter, what comes out is safe, and safe
text is its own escape.
-/

namespace Escaping

variable {α : Type*}

/-- No letter of the text is dangerous. -/
def Safe (dangerous : α → Bool) (xs : List α) : Prop := ∀ x ∈ xs, dangerous x = false

instance (dangerous : α → Bool) (xs : List α) : Decidable (Safe dangerous xs) :=
  inferInstanceAs (Decidable (∀ x ∈ xs, dangerous x = false))

/-- Replace every dangerous letter by its escape. -/
def escapeAll (dangerous : α → Bool) (escape : α → List α) (xs : List α) : List α :=
  xs.flatMap fun x => if dangerous x then escape x else [x]

variable {dangerous : α → Bool} {escape : α → List α}

@[simp] theorem safe_nil : Safe dangerous [] := by simp [Safe]

@[simp] theorem safe_cons {x : α} {xs : List α} :
    Safe dangerous (x :: xs) ↔ dangerous x = false ∧ Safe dangerous xs := by simp [Safe]

@[simp] theorem safe_append {xs ys : List α} :
    Safe dangerous (xs ++ ys) ↔ Safe dangerous xs ∧ Safe dangerous ys := by
  simp [Safe, or_imp, forall_and]

@[simp] theorem safe_flatMap {β : Type*} {f : β → List α} {xs : List β} :
    Safe dangerous (xs.flatMap f) ↔ ∀ x ∈ xs, Safe dangerous (f x) := by
  simp only [Safe, List.mem_flatMap]
  exact ⟨fun h x hx y hy => h y ⟨x, hx, hy⟩, fun h y hy => hy.elim fun x hx => h x hx.1 y hx.2⟩

theorem Safe.sublist {xs ys : List α} (h : Safe dangerous ys) (hsub : xs.Sublist ys) :
    Safe dangerous xs := fun x hx => h x (hsub.subset hx)

theorem safe_escapeAll (hescape : ∀ x, Safe dangerous (escape x)) (xs : List α) :
    Safe dangerous (escapeAll dangerous escape xs) := by
  unfold escapeAll
  rw [safe_flatMap]
  intro x _
  split
  next => exact hescape x
  next hsafe => simpa using hsafe

theorem escapeAll_eq_self {xs : List α} (h : Safe dangerous xs) :
    escapeAll dangerous escape xs = xs := by
  unfold escapeAll
  induction xs with
  | nil => rfl
  | cons x xs ih =>
      rw [safe_cons] at h
      simp [h.1, ih h.2]

/-- A filter that strips dangerous letters only strips nothing of safe text. -/
theorem filter_eq_self_of_safe {strips : α → Bool} (hstrips : ∀ x, strips x → dangerous x)
    {xs : List α} (h : Safe dangerous xs) : (xs.filter fun x => !strips x) = xs := by
  apply List.filter_eq_self.mpr
  intro x hx
  have hsafe := h x hx
  have := hstrips x
  grind

end Escaping
