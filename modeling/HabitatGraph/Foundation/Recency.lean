import Mathlib.Data.List.Dedup
import Mathlib.Data.List.DropRight

/-! # Recency of keys in a history

A history is the list of keys touched, oldest first. `List.dedup` keeps the last
occurrence of each key, so it lists the keys of a history from the least to the
most recently touched; a bounded cache remembers the last few of that list.
-/

namespace Recency

variable {α : Type*} [DecidableEq α]

/-- Move a key to the most recent end of a recency list. -/
def touch (order : List α) (key : α) : List α := order.erase key ++ [key]

/-- When a key was last touched: one for the oldest touch, zero for none. -/
def lastTouch (history : List α) (key : α) : Nat :=
  history.length - history.reverse.idxOf key

/-- The `capacity` most recently touched distinct keys, least recent first; a
capacity of zero is no bound. -/
def mostRecent (capacity : Nat) (history : List α) : List α :=
  if capacity = 0 then history.dedup else history.dedup.rtake capacity

/-! ## Touching -/

theorem mem_touch {order : List α} {key k : α} : k ∈ touch order key ↔ k ∈ order ∨ k = key := by
  by_cases heq : k = key
  · simp [touch, heq]
  · simp [touch, heq, List.mem_erase_of_ne heq]

theorem nodup_touch {order : List α} (hnodup : order.Nodup) (key : α) :
    (touch order key).Nodup := by
  rw [touch, List.nodup_append]
  refine ⟨hnodup.erase key, List.nodup_singleton key, ?_⟩
  intro a ha b hb heq
  rw [List.mem_singleton] at hb
  subst hb heq
  exact hnodup.not_mem_erase ha

theorem touch_of_notMem {order : List α} {key : α} (hkey : key ∉ order) :
    touch order key = order ++ [key] := by
  rw [touch, List.erase_of_not_mem hkey]

theorem length_touch_of_mem {order : List α} {key : α} (hkey : key ∈ order) :
    (touch order key).length = order.length := by
  have hpos := List.length_pos_of_mem hkey
  rw [touch, List.length_append, List.length_erase_of_mem hkey, List.length_singleton]
  omega

/-- A later touch of a key is all that remains of it. -/
theorem dedup_concat (history : List α) (key : α) :
    (history ++ [key]).dedup = touch history.dedup key := by
  induction history with
  | nil => simp [touch]
  | cons x xs ih =>
      rw [List.cons_append, List.dedup_cons, List.dedup_cons, ih]
      by_cases hx : x ∈ xs
      · simp [hx]
      · by_cases heq : x = key
        · subst heq
          simp [hx, touch, List.erase_of_not_mem]
        · simp [hx, heq, touch]

/-! ## The order of last touches -/

@[simp] theorem lastTouch_concat (history : List α) (key k : α) :
    lastTouch (history ++ [key]) k =
      if k = key then history.length + 1 else lastTouch history k := by
  by_cases heq : k = key
  · subst heq
    simp [lastTouch]
  · simp [lastTouch, heq, Ne.symm heq]

theorem lastTouch_le (history : List α) (key : α) : lastTouch history key ≤ history.length :=
  Nat.sub_le _ _

/-- The recency list is sorted by the time of the last touch. -/
theorem pairwise_lastTouch (history : List α) :
    history.dedup.Pairwise fun a b => lastTouch history a < lastTouch history b := by
  induction history using List.reverseRecOn with
  | nil => simp
  | append_singleton xs x ih =>
      have hlt : ∀ a ∈ xs.dedup.erase x, a ≠ x := by
        rintro a ha rfl
        exact (List.nodup_dedup xs).not_mem_erase ha
      rw [dedup_concat, touch, List.pairwise_append]
      refine ⟨?_, List.pairwise_singleton _ _, ?_⟩
      · refine (ih.sublist List.erase_sublist).imp_of_mem ?_
        intro a b ha hb hab
        simpa [hlt a ha, hlt b hb] using hab
      · intro a ha b hb
        rw [List.mem_singleton] at hb
        have hle := lastTouch_le xs a
        simp [hb, hlt a ha]
        omega

/-! ## Bounded recency -/

theorem mostRecent_suffix (capacity : Nat) (history : List α) :
    mostRecent capacity history <:+ history.dedup := by
  unfold mostRecent
  split
  · exact List.suffix_refl _
  · exact List.drop_suffix _ _

theorem nodup_mostRecent (capacity : Nat) (history : List α) :
    (mostRecent capacity history).Nodup :=
  (mostRecent_suffix capacity history).sublist.nodup (List.nodup_dedup history)

theorem length_mostRecent_le {capacity : Nat} (hcapacity : 0 < capacity) (history : List α) :
    (mostRecent capacity history).length ≤ capacity := by
  rw [mostRecent, if_neg (by omega), List.rtake, List.length_drop]
  omega

theorem mostRecent_pairwise_lastTouch (capacity : Nat) (history : List α) :
    (mostRecent capacity history).Pairwise fun a b =>
      lastTouch history a < lastTouch history b :=
  (pairwise_lastTouch history).sublist (mostRecent_suffix capacity history).sublist

theorem rtake_touch_of_mem {order : List α} (hnodup : order.Nodup) {n : Nat} {key : α}
    (hkey : key ∈ order.rtake n) : (touch order key).rtake n = touch (order.rtake n) key := by
  -- the key is met in the last part, so what lies before is neither erased nor moved
  have hsplit : order = order.take (order.length - n) ++ order.rtake n :=
    (List.take_append_drop _ order).symm
  have hnot : key ∉ order.take (order.length - n) := by
    rw [hsplit] at hnodup
    intro hmem
    exact (List.nodup_append.mp hnodup).2.2 key hmem key hkey rfl
  have htouch : touch order key =
      order.take (order.length - n) ++ touch (order.rtake n) key := by
    conv_lhs => rw [hsplit]
    rw [touch, touch, List.erase_append_right _ hnot, List.append_assoc]
  have hlength : (touch order key).length = order.length :=
    length_touch_of_mem (List.mem_of_mem_drop hkey)
  conv_lhs => rw [List.rtake, hlength, htouch]
  rw [List.drop_append, List.drop_eq_nil_of_le (by simp), List.length_take]
  simp

/-- Touching a remembered key only moves it. -/
theorem mostRecent_concat_of_mem {capacity : Nat} {history : List α} {key : α}
    (hkey : key ∈ mostRecent capacity history) :
    mostRecent capacity (history ++ [key]) = touch (mostRecent capacity history) key := by
  unfold mostRecent at hkey ⊢
  split
  next => exact dedup_concat history key
  next hcapacity =>
    rw [if_neg hcapacity] at hkey
    rw [dedup_concat, rtake_touch_of_mem (List.nodup_dedup history) hkey]

/-- Below its capacity a window takes a new key without losing one. -/
theorem mostRecent_concat_of_room {capacity : Nat} {history : List α} {key : α}
    (hkey : key ∉ mostRecent capacity history)
    (hroom : 0 < capacity → (mostRecent capacity history).length < capacity) :
    mostRecent capacity (history ++ [key]) = mostRecent capacity history ++ [key] := by
  unfold mostRecent at hkey hroom ⊢
  split
  next hcapacity =>
    rw [if_pos hcapacity] at hkey
    rw [dedup_concat, touch_of_notMem hkey]
  next hcapacity =>
    simp only [if_neg hcapacity, List.rtake, List.length_drop] at hkey hroom
    have hwhole : history.dedup.length - capacity = 0 := by omega
    rw [hwhole, List.drop_zero] at hkey
    rw [dedup_concat, touch_of_notMem hkey, List.rtake, List.rtake, hwhole, List.drop_zero,
      List.length_append, List.length_singleton, Nat.sub_eq_zero_of_le (by omega),
      List.drop_zero]

omit [DecidableEq α] in
theorem rtake_append_of_le {front back : List α} {n : Nat} (hn : n ≤ back.length) :
    (front ++ back).rtake n = back.rtake n := by
  have hlength : (front ++ back).length - n = front.length + (back.length - n) := by
    rw [List.length_append]
    omega
  rw [List.rtake, List.rtake, hlength, List.drop_append]
  simp

/-- At its capacity a window forgets its least recent key for a new one. -/
theorem mostRecent_concat_of_full {capacity : Nat} {history : List α} {key : α}
    (hkey : key ∉ mostRecent capacity history) (hcapacity : 0 < capacity)
    (hfull : (mostRecent capacity history).length = capacity) :
    mostRecent capacity (history ++ [key]) = (mostRecent capacity history).tail ++ [key] := by
  obtain ⟨n, rfl⟩ : ∃ n, capacity = n + 1 := ⟨capacity - 1, by omega⟩
  rw [mostRecent, if_neg (by omega)] at hkey hfull
  rw [mostRecent, mostRecent, if_neg (by omega), if_neg (by omega), dedup_concat, touch,
    List.rtake_concat_succ]
  obtain ⟨front, hsplit⟩ : ∃ front, history.dedup = front ++ history.dedup.rtake (n + 1) :=
    ⟨_, (List.take_append_drop _ history.dedup).symm⟩
  have herase : history.dedup.erase key = front.erase key ++ history.dedup.rtake (n + 1) := by
    conv_lhs => rw [hsplit]
    rw [List.erase_append]
    split
    next => rfl
    next hfront => rw [List.erase_of_not_mem hkey, List.erase_of_not_mem hfront]
  have hn : n ≤ (history.dedup.rtake (n + 1)).length := by omega
  rw [herase, rtake_append_of_le hn, List.rtake, hfull, Nat.add_sub_cancel_left, List.drop_one]

theorem mem_of_mem_mostRecent {capacity : Nat} {history : List α} {key : α}
    (hkey : key ∈ mostRecent capacity history) : key ∈ history :=
  List.mem_dedup.mp ((mostRecent_suffix capacity history).mem hkey)

theorem mem_mostRecent_zero {history : List α} {key : α} :
    key ∈ mostRecent 0 history ↔ key ∈ history := by
  simp [mostRecent]

end Recency
