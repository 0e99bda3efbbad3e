import HabitatGraph.Foundation.PartialMap
import Mathlib.Data.Finset.Card
import Mathlib.Data.List.Basic

/-! # Lists read through a key

A list whose elements carry a key can be read as a map in which the first
element of each key wins; `firstBy` is that map. `firsts` keeps exactly those
elements, in order: it is the single-pass filter that inserts every key into a
set and keeps an element when the insertion is new.
-/

namespace KeyedList

variable {α κ : Type*} [DecidableEq κ] (key : α → κ)

/-- Keep each element whose key has not been seen, recording the keys kept. -/
def firstsFrom : List κ → List α → List α
  | _, [] => []
  | seen, x :: xs =>
      if key x ∈ seen then firstsFrom seen xs
      else x :: firstsFrom (key x :: seen) xs

/-- Keep the first element of every key. -/
def firsts (xs : List α) : List α := firstsFrom key [] xs

variable {key}

@[simp] theorem firstsFrom_nil (seen : List κ) : firstsFrom key seen [] = [] := rfl

theorem firstsFrom_cons_of_mem {seen : List κ} {x : α} (xs : List α) (h : key x ∈ seen) :
    firstsFrom key seen (x :: xs) = firstsFrom key seen xs := if_pos h

theorem firstsFrom_cons_of_notMem {seen : List κ} {x : α} (xs : List α) (h : key x ∉ seen) :
    firstsFrom key seen (x :: xs) = x :: firstsFrom key (key x :: seen) xs := if_neg h

/-- Only membership in the set of seen keys matters. -/
theorem firstsFrom_congr {seen seen' : List κ} (h : ∀ k, k ∈ seen ↔ k ∈ seen') (xs : List α) :
    firstsFrom key seen xs = firstsFrom key seen' xs := by
  induction xs generalizing seen seen' with
  | nil => rfl
  | cons x xs ih =>
      by_cases hx : key x ∈ seen
      · rw [firstsFrom_cons_of_mem xs hx, firstsFrom_cons_of_mem xs ((h _).mp hx), ih h]
      · rw [firstsFrom_cons_of_notMem xs hx, firstsFrom_cons_of_notMem xs (mt (h _).mpr hx)]
        refine congrArg (x :: ·) (ih fun k => ?_)
        simp only [List.mem_cons, h k]

theorem firstsFrom_sublist (seen : List κ) (xs : List α) :
    (firstsFrom key seen xs).Sublist xs := by
  induction xs generalizing seen with
  | nil => exact List.Sublist.refl []
  | cons x xs ih =>
      by_cases hx : key x ∈ seen
      · rw [firstsFrom_cons_of_mem xs hx]
        exact (ih seen).cons x
      · rw [firstsFrom_cons_of_notMem xs hx]
        exact (ih (key x :: seen)).cons_cons x

theorem firsts_sublist (xs : List α) : (firsts key xs).Sublist xs := firstsFrom_sublist [] xs

theorem mem_of_mem_firsts {xs : List α} {x : α} (h : x ∈ firsts key xs) : x ∈ xs :=
  (firsts_sublist xs).subset h

theorem mem_map_firstsFrom {seen : List κ} {xs : List α} {k : κ} :
    k ∈ (firstsFrom key seen xs).map key ↔ k ∉ seen ∧ k ∈ xs.map key := by
  induction xs generalizing seen with
  | nil => simp
  | cons x xs ih =>
      by_cases hx : key x ∈ seen
      · rw [firstsFrom_cons_of_mem xs hx, ih, List.map_cons, List.mem_cons]
        refine and_congr_right fun hk => ⟨Or.inr, fun h => h.resolve_left ?_⟩
        rintro rfl
        exact hk hx
      · rw [firstsFrom_cons_of_notMem xs hx, List.map_cons, List.mem_cons, ih, List.map_cons,
          List.mem_cons, List.mem_cons, not_or]
        by_cases hk : k = key x
        · subst hk
          simp [hx]
        · simp [hk]

/-- `firsts` loses no key. -/
theorem mem_map_firsts {xs : List α} {k : κ} :
    k ∈ (firsts key xs).map key ↔ k ∈ xs.map key := by
  simp [firsts, mem_map_firstsFrom]

theorem nodup_map_firstsFrom (seen : List κ) (xs : List α) :
    ((firstsFrom key seen xs).map key).Nodup := by
  induction xs generalizing seen with
  | nil => exact List.nodup_nil
  | cons x xs ih =>
      by_cases hx : key x ∈ seen
      · rw [firstsFrom_cons_of_mem xs hx]
        exact ih seen
      · rw [firstsFrom_cons_of_notMem xs hx, List.map_cons, List.nodup_cons, mem_map_firstsFrom]
        exact ⟨fun h => h.1 List.mem_cons_self, ih _⟩

/-- `firsts` leaves one element per key. -/
theorem nodup_map_firsts (xs : List α) : ((firsts key xs).map key).Nodup :=
  nodup_map_firstsFrom [] xs

/-- Elements with distinct keys from a set are no more than the set has. -/
theorem length_le_card {xs : List α} {s : Finset κ} (hnodup : (xs.map key).Nodup)
    (hsubset : ∀ k ∈ xs.map key, k ∈ s) : xs.length ≤ s.card := by
  have hcard : (xs.map key).toFinset.card = xs.length := by
    rw [List.toFinset_card_of_nodup hnodup, List.length_map]
  rw [← hcard]
  apply Finset.card_le_card
  intro k hk
  exact hsubset k (List.mem_toFinset.mp hk)

theorem firstsFrom_eq_self {seen : List κ} {xs : List α} (hxs : (xs.map key).Nodup)
    (hseen : ∀ x ∈ xs, key x ∉ seen) : firstsFrom key seen xs = xs := by
  induction xs generalizing seen with
  | nil => rfl
  | cons x xs ih =>
      obtain ⟨hx, hxs⟩ := List.nodup_cons.mp hxs
      rw [firstsFrom_cons_of_notMem xs (hseen x List.mem_cons_self)]
      refine congrArg (x :: ·) (ih hxs fun y hy => ?_)
      simp only [List.mem_cons, not_or]
      refine ⟨fun h => hx (h ▸ List.mem_map_of_mem hy), hseen y (List.mem_cons_of_mem x hy)⟩

/-- A list with distinct keys is left alone. -/
theorem firsts_eq_self {xs : List α} (hxs : (xs.map key).Nodup) : firsts key xs = xs :=
  firstsFrom_eq_self hxs fun _ _ => List.not_mem_nil

/-- A list that loses no element has distinct keys. -/
theorem nodup_of_length_le {xs : List α} (h : xs.length ≤ (firsts key xs).length) :
    (xs.map key).Nodup := by
  rw [← (firsts_sublist xs).eq_of_length_le h]
  exact nodup_map_firsts xs

/-- What comes after a list that has its keys adds nothing. -/
theorem firstsFrom_append_of_forall {seen : List κ} {xs ys : List α}
    (h : ∀ y ∈ ys, key y ∈ seen ∨ key y ∈ xs.map key) :
    firstsFrom key seen (xs ++ ys) = firstsFrom key seen xs := by
  induction xs generalizing seen with
  | nil =>
      apply List.eq_nil_iff_forall_not_mem.mpr
      intro y hy
      have hseen := (h y ((firstsFrom_sublist seen ys).subset hy)).resolve_right List.not_mem_nil
      exact (mem_map_firstsFrom.mp (List.mem_map_of_mem hy)).1 hseen
  | cons x xs ih =>
      rw [List.cons_append]
      by_cases hx : key x ∈ seen
      · rw [firstsFrom_cons_of_mem _ hx, firstsFrom_cons_of_mem _ hx]
        apply ih
        intro y hy
        rcases h y hy with hseen | hmem
        · exact Or.inl hseen
        · rcases List.mem_cons.mp hmem with heq | hmem
          · exact Or.inl (heq ▸ hx)
          · exact Or.inr hmem
      · rw [firstsFrom_cons_of_notMem _ hx, firstsFrom_cons_of_notMem _ hx]
        apply congrArg (x :: ·)
        apply ih
        intro y hy
        rcases h y hy with hseen | hmem
        · exact Or.inl (List.mem_cons_of_mem _ hseen)
        · rcases List.mem_cons.mp hmem with heq | hmem
          · exact Or.inl (heq ▸ List.mem_cons_self)
          · exact Or.inr hmem

theorem firsts_append_self (xs : List α) : firsts key (xs ++ xs) = firsts key xs :=
  firstsFrom_append_of_forall fun _ hx => Or.inr (List.mem_map_of_mem hx)

/-- Keys that tell the same elements apart leave the same elements. -/
theorem firstsFrom_map_congr {β κ' : Type*} [DecidableEq κ'] {f : β → α} {key' : β → κ'}
    {seen xs : List β} (hkey : ∀ x ∈ xs, ∀ y, y ∈ seen ∨ y ∈ xs →
      (key (f y) = key (f x) ↔ key' y = key' x)) :
    firstsFrom key (seen.map fun x => key (f x)) (xs.map f) =
      (firstsFrom key' (seen.map key') xs).map f := by
  induction xs generalizing seen with
  | nil => rfl
  | cons x xs ih =>
      have hseen : key (f x) ∈ (seen.map fun x => key (f x)) ↔ key' x ∈ seen.map key' := by
        rw [List.mem_map, List.mem_map]
        exact exists_congr fun y => and_congr_right fun hy =>
          hkey x List.mem_cons_self y (Or.inl hy)
      rw [List.map_cons]
      by_cases hx : key' x ∈ seen.map key'
      · rw [firstsFrom_cons_of_mem _ hx, firstsFrom_cons_of_mem _ (hseen.mpr hx)]
        apply ih
        intro y hy z hz
        exact hkey y (List.mem_cons_of_mem x hy) z (hz.imp_right (List.mem_cons_of_mem x))
      · rw [firstsFrom_cons_of_notMem _ hx, firstsFrom_cons_of_notMem _ (mt hseen.mp hx),
          List.map_cons]
        apply congrArg (f x :: ·)
        apply @ih (x :: seen)
        intro y hy z hz
        apply hkey y (List.mem_cons_of_mem x hy) z
        rcases hz with hz | hz
        · exact (List.mem_cons.mp hz).elim (fun heq => Or.inr (heq ▸ List.mem_cons_self)) Or.inl
        · exact Or.inr (List.mem_cons_of_mem x hz)

theorem firsts_map_congr {β κ' : Type*} [DecidableEq κ'] {f : β → α} {key' : β → κ'} {xs : List β}
    (hkey : ∀ x ∈ xs, ∀ y ∈ xs, (key (f y) = key (f x) ↔ key' y = key' x)) :
    firsts key (xs.map f) = (firsts key' xs).map f :=
  firstsFrom_map_congr fun x hx y hy => hkey x hx y (hy.resolve_left List.not_mem_nil)

theorem find?_firstsFrom {p : α → Bool} {seen : List κ} (xs : List α)
    (hp : ∀ x ∈ xs, ∀ y ∈ xs, key x = key y → p x = p y)
    (hseen : ∀ x ∈ xs, key x ∈ seen → p x = false) :
    (firstsFrom key seen xs).find? p = xs.find? p := by
  induction xs generalizing seen with
  | nil => rfl
  | cons x xs ih =>
      have hp' : ∀ y ∈ xs, ∀ z ∈ xs, key y = key z → p y = p z := fun y hy z hz =>
        hp y (List.mem_cons_of_mem x hy) z (List.mem_cons_of_mem x hz)
      have hseen' : ∀ y ∈ xs, key y ∈ seen → p y = false := fun y hy =>
        hseen y (List.mem_cons_of_mem x hy)
      by_cases hx : key x ∈ seen
      · rw [firstsFrom_cons_of_mem xs hx, ih hp' hseen', List.find?_cons,
          hseen x List.mem_cons_self hx]
      · rw [firstsFrom_cons_of_notMem xs hx, List.find?_cons, List.find?_cons]
        cases hpx : p x with
        | true => rfl
        | false =>
            -- what is skipped from here on has the key of `x` and fails the test like it
            refine ih hp' fun y hy hy' => ?_
            rcases List.mem_cons.mp hy' with heq | hy'
            · rw [hp y (List.mem_cons_of_mem x hy) x List.mem_cons_self heq, hpx]
            · exact hseen' y hy hy'

/-- A search that cannot tell elements of one key apart finds the same element
before and after `firsts`. -/
theorem find?_firsts {p : α → Bool} (xs : List α)
    (hp : ∀ x ∈ xs, ∀ y ∈ xs, key x = key y → p x = p y) :
    (firsts key xs).find? p = xs.find? p :=
  find?_firstsFrom xs hp fun _ _ h => absurd h List.not_mem_nil

omit [DecidableEq κ] in
/-- Distinct keys make an element the only one of its key. -/
theorem eq_of_mem_of_key_eq {xs : List α} (hxs : (xs.map key).Nodup) {x y : α} (hx : x ∈ xs)
    (hy : y ∈ xs) (h : key x = key y) : x = y :=
  List.inj_on_of_nodup_map hxs hx hy h

/-- With distinct keys, searching by key is membership. -/
theorem find?_key_eq_some_iff {xs : List α} (hxs : (xs.map key).Nodup) {k : κ} {x : α} :
    xs.find? (fun y => decide (key y = k)) = some x ↔ x ∈ xs ∧ key x = k := by
  constructor
  · intro h
    exact ⟨List.mem_of_find?_eq_some h, by simpa using List.find?_some h⟩
  · rintro ⟨hx, rfl⟩
    obtain ⟨y, hy⟩ := Option.isSome_iff_exists.mp
      (List.find?_isSome.mpr ⟨x, hx, decide_eq_true rfl⟩ :
        (xs.find? fun y => decide (key y = key x)).isSome)
    have hkey : key y = key x := by simpa using List.find?_some hy
    rw [hy, eq_of_mem_of_key_eq hxs (List.mem_of_find?_eq_some hy) hx hkey]

/-! ## Elements that alone satisfy a test -/

omit [DecidableEq κ] in
/-- In a list without repetition, a test counts one when one element passes it. -/
theorem countP_eq_one_iff {xs : List α} {p : α → Bool} (hnodup : xs.Nodup) :
    xs.countP p = 1 ↔ ∃! x, x ∈ xs ∧ p x := by
  have hfilter := hnodup.filter p
  rw [List.countP_eq_length_filter, List.length_eq_one_iff]
  constructor
  · intro ⟨x, hx⟩
    have hmem : ∀ y, y ∈ xs ∧ p y ↔ y = x := fun y => by
      rw [← List.mem_filter, hx, List.mem_singleton]
    exact ⟨x, (hmem x).mpr rfl, fun y hy => (hmem y).mp hy⟩
  · intro ⟨x, hx, hunique⟩
    refine ⟨x, List.perm_singleton.mp ((List.perm_ext_iff_of_nodup hfilter
      (List.nodup_singleton x)).mpr fun y => ?_)⟩
    rw [List.mem_filter, List.mem_singleton]
    exact ⟨hunique y, fun h => h ▸ hx⟩

/-- `firsts` keeps exactly the elements that a search by their key finds. -/
theorem mem_firsts_iff {xs : List α} {x : α} :
    x ∈ firsts key xs ↔ xs.find? (fun y => decide (key y = key x)) = some x := by
  have hfirsts : (firsts key xs).find? (fun y => decide (key y = key x)) =
      xs.find? (fun y => decide (key y = key x)) :=
    find?_firsts xs fun y _ z _ h => by simp only [h]
  rw [← hfirsts, find?_key_eq_some_iff (nodup_map_firsts xs)]
  simp only [and_true]

/-! ## The map of first elements -/

section FirstBy

variable {β ν : Type*} {key : α → Option κ} {val : α → ν}

/-- Each key is mapped to the value of the first element that carries it;
elements without a key are skipped. -/
def firstBy (key : α → Option κ) (val : α → ν) (xs : List α) : PartialMap κ ν :=
  fun k => (xs.find? fun x => key x = some k).map val

@[simp] theorem firstBy_nil : firstBy key val [] = PartialMap.empty := rfl

theorem firstBy_cons (x : α) (xs : List α) (k : κ) :
    firstBy key val (x :: xs) k =
      if key x = some k then some (val x) else firstBy key val xs k := by
  unfold firstBy
  by_cases h : key x = some k <;> simp [h]

theorem firstBy_append (xs ys : List α) :
    firstBy key val (xs ++ ys) = (firstBy key val xs).overlay (firstBy key val ys) := by
  funext k
  simp only [firstBy, PartialMap.overlay, List.find?_append, Option.map_or]

theorem firstBy_isSome_iff {xs : List α} {k : κ} :
    (firstBy key val xs k).isSome ↔ ∃ x ∈ xs, key x = some k := by
  simp [firstBy, List.find?_isSome]

theorem exists_of_firstBy_eq_some {xs : List α} {k : κ} {v : ν}
    (h : firstBy key val xs k = some v) : ∃ x ∈ xs, key x = some k ∧ val x = v := by
  obtain ⟨x, hx, rfl⟩ := Option.map_eq_some_iff.mp h
  exact ⟨x, List.mem_of_find?_eq_some hx, by simpa using List.find?_some hx, rfl⟩

/-- An element alone with its key provides the value of that key. -/
theorem firstBy_eq_some_of_unique {xs : List α} {k : κ} {x : α} (hx : x ∈ xs)
    (hk : key x = some k) (hunique : ∀ y ∈ xs, key y = some k → y = x) :
    firstBy key val xs k = some (val x) := by
  have hsome : (firstBy key val xs k).isSome := firstBy_isSome_iff.mpr ⟨x, hx, hk⟩
  obtain ⟨v, hv⟩ := Option.isSome_iff_exists.mp hsome
  obtain ⟨y, hy, hyk, rfl⟩ := exists_of_firstBy_eq_some hv
  rw [hv, hunique y hy hyk]

/-- Renaming and dropping elements along a partial function keeps the map, as
long as only elements without a key are dropped. -/
theorem firstBy_filterMap {key' : β → Option κ} {val' : β → ν} {f : α → Option β} (xs : List α)
    (hsome : ∀ x ∈ xs, ∀ y, f x = some y → key' y = key x ∧ val' y = val x)
    (hnone : ∀ x ∈ xs, f x = none → key x = none) :
    firstBy key' val' (xs.filterMap f) = firstBy key val xs := by
  funext k
  induction xs with
  | nil => rfl
  | cons x xs ih =>
      have htail := ih (fun y hy => hsome y (List.mem_cons_of_mem x hy))
        (fun y hy => hnone y (List.mem_cons_of_mem x hy))
      cases hx : f x with
      | none => rw [List.filterMap_cons_none hx, htail, firstBy_cons,
          hnone x List.mem_cons_self hx, if_neg (by simp)]
      | some y =>
          obtain ⟨hkey, hval⟩ := hsome x List.mem_cons_self y hx
          rw [List.filterMap_cons_some hx, firstBy_cons, firstBy_cons, htail, hkey, hval]

/-- Forgetting the keys that fail a test forgets their entries. -/
theorem firstBy_filterKey (P : κ → Bool) (xs : List α) (k : κ) :
    firstBy (fun x => (key x).filter P) val xs k = if P k then firstBy key val xs k else none := by
  induction xs with
  | nil => simp
  | cons x xs ih =>
      rw [firstBy_cons, firstBy_cons, ih]
      by_cases hx : key x = some k
      · cases hP : P k <;> simp [hx, hP]
      · have hfilter : (key x).filter P ≠ some k := fun h => hx (Option.eq_some_of_filter_eq_some h)
        cases hP : P k <;> simp [hx, hfilter]

/-- Dropping the elements whose key fails a test drops those keys. -/
theorem firstBy_filter {key : α → κ} (P : κ → Bool) (xs : List α) (k : κ) :
    firstBy (fun x => some (key x)) val (xs.filter fun x => P (key x)) k =
      if P k then firstBy (fun x => some (key x)) val xs k else none := by
  rw [← firstBy_filterKey, ← List.filterMap_eq_filter]
  refine congrFun (firstBy_filterMap xs ?_ ?_) k
  · intro x _ y hy
    obtain ⟨rfl, hP⟩ := Option.guard_eq_some_iff.mp hy
    exact ⟨(Option.filter_some_pos hP).symm, rfl⟩
  · intro x _ hnone
    exact Option.filter_some_neg (by simpa using hnone)

/-- An element's key may be forgotten where it is read. -/
theorem firstBy_guard {key : α → κ} (P : κ → Prop) [DecidablePred P] (xs : List α) (k : κ) :
    firstBy (fun x => if P (key x) then some (key x) else none) val xs k =
      if P k then firstBy (fun x => some (key x)) val xs k else none := by
  have h : firstBy (fun x => (some (key x)).filter fun k => decide (P k)) val xs k =
      if decide (P k) then firstBy (fun x => some (key x)) val xs k else none :=
    firstBy_filterKey _ xs k
  simpa only [Option.filter_some, decide_eq_true_eq] using h

/-- Dropping repeated keys keeps the map. -/
theorem firstBy_firsts {key : α → κ} (xs : List α) :
    firstBy (fun x => some (key x)) val (firsts key xs) =
      firstBy (fun x => some (key x)) val xs := by
  funext k
  unfold firstBy
  rw [find?_firsts xs fun x _ y _ h => by simp only [h]]

end FirstBy

end KeyedList
