import HabitatGraph.Foundation.PartialMap
import Mathlib.Data.List.Chain
import Mathlib.Data.List.Infix
import Mathlib.Data.List.Lex
import Mathlib.Data.List.Perm.Subperm
import Mathlib.Data.Prod.Lex
import Mathlib.Logic.Function.Basic

/-! # Breadth-first search

The search discovers vertices along sorted neighbour lists and records who
discovered whom. Paths are compared by their length first and then
lexicographically; the queue holds the vertices in the order of the paths by
which they were discovered, and so each of these paths is the least of all.
-/

namespace BreadthFirst

/-! ## The search -/

/-- The discovered vertices with their predecessors, those still to be expanded,
and whether the search stopped at its goal. -/
structure Search (V : Type*) where
  pred : PartialMap V V
  queue : List V
  stopped : Bool

section Algorithm

variable {V : Type*} [LinearOrder V]

/-- Record the undiscovered neighbours of a vertex, up to the goal. -/
def scan (goal current : V) : List V → Search V → Search V
  | [], s => s
  | neighbor :: rest, s =>
      match s.pred neighbor with
      | some _ => scan goal current rest s
      | none =>
          let pred := s.pred.insert neighbor current
          if neighbor = goal then { s with pred := pred, stopped := true }
          else scan goal current rest { s with pred := pred, queue := s.queue ++ [neighbor] }

/-- Expand the vertices of the queue in order. -/
def search (adj : V → List V) (goal : V) : Nat → Search V → Search V
  | 0, s => s
  | fuel + 1, s =>
      if s.stopped then s
      else match s.queue with
        | [] => s
        | current :: rest =>
            search adj goal fuel (scan goal current (adj current) { s with queue := rest })

/-- The search before its first step. -/
def Search.start (src : V) : Search V where
  pred := PartialMap.empty.insert src src
  queue := [src]
  stopped := false

/-- The vertices from one back to the root, which precedes itself. -/
def walkBack (pred : PartialMap V V) : Nat → V → Option (List V)
  | 0, _ => none
  | fuel + 1, cursor =>
      match pred cursor with
      | none => none
      | some p =>
          if p = cursor then some [cursor]
          else (walkBack pred fuel p).map (cursor :: ·)

end Algorithm

/-! ## Paths and their order -/

/-- Paths from a source, extended at their end. -/
inductive Path {V : Type*} (adj : V → List V) (src : V) : List V → V → Prop
  | start : Path adj src [src] src
  | snoc {p : List V} {u v : V} : Path adj src p u → v ∈ adj u → Path adj src (p ++ [v]) v

namespace Path

variable {V : Type*} {adj : V → List V} {src : V} {p : List V} {v : V}

theorem length_pos (hpath : Path adj src p v) : 0 < p.length := by
  cases hpath <;> simp

theorem getLast? (hpath : Path adj src p v) : p.getLast? = some v := by
  cases hpath <;> simp

theorem head? (hpath : Path adj src p v) : p.head? = some src := by
  induction hpath with
  | start => rfl
  | snoc hp _ ih => rw [List.head?_append, ih, Option.some_or]

theorem isChain (hpath : Path adj src p v) : p.IsChain fun a b => b ∈ adj a := by
  induction hpath with
  | start => exact List.IsChain.singleton src
  | snoc hp hv ih =>
      rw [List.isChain_append]
      refine ⟨ih, List.IsChain.singleton _, ?_⟩
      intro a ha b hb
      rw [hp.getLast?, Option.mem_some_iff] at ha
      rw [List.head?_cons, Option.mem_some_iff] at hb
      rw [← ha, ← hb]
      exact hv

/-- A path is a chain of neighbours from the source. -/
theorem of_isChain (hhead : p.head? = some src) (hlast : p.getLast? = some v)
    (hchain : p.IsChain fun a b => b ∈ adj a) : Path adj src p v := by
  induction p using List.reverseRecOn generalizing v with
  | nil => simp at hhead
  | append_singleton p w ih =>
      rw [List.getLast?_concat, Option.some_inj] at hlast
      subst hlast
      cases hp : p.getLast? with
      | none =>
          rw [List.getLast?_eq_none_iff] at hp
          subst hp
          simp only [List.nil_append, List.head?_cons, Option.some_inj] at hhead
          subst hhead
          exact Path.start
      | some u =>
          have hne : p ≠ [] := by
            rintro rfl
            simp at hp
          rw [List.head?_append_of_ne_nil _ hne] at hhead
          rw [List.isChain_append] at hchain
          exact (ih hhead hp hchain.1).snoc (hchain.2.2 u hp w rfl)

end Path

section Rank

variable {V : Type*} [LinearOrder V]

/-- Shorter paths come first, and those of one length in lexicographic order. -/
def rank (p : List V) : Lex (Nat × List V) := toLex (p.length, p)

theorem rank_lt_iff {p q : List V} :
    rank p < rank q ↔ p.length < q.length ∨ p.length = q.length ∧ p < q :=
  Prod.Lex.toLex_lt_toLex

theorem rank_le_iff {p q : List V} :
    rank p ≤ rank q ↔ p.length < q.length ∨ p.length = q.length ∧ p ≤ q :=
  Prod.Lex.toLex_le_toLex

omit [LinearOrder V] in
theorem rank_injective : Function.Injective (rank : List V → Lex (Nat × List V)) := by
  intro p q heq
  exact congrArg Prod.snd (toLex.injective heq)

theorem append_lt_append {p q : List V} (hlt : p < q) (hlength : p.length = q.length)
    (s t : List V) : p ++ s < q ++ t := by
  change List.Lex (· < ·) p q at hlt
  change List.Lex (· < ·) (p ++ s) (q ++ t)
  induction hlt with
  | nil => simp at hlength
  | rel hab => exact List.Lex.rel hab
  | cons _ ih => exact List.Lex.cons (ih (by simpa using hlength))

theorem rank_concat_lt {p q : List V} (hlt : rank p < rank q) (v w : V) :
    rank (p ++ [v]) < rank (q ++ [w]) := by
  rw [rank_lt_iff] at hlt ⊢
  simp only [List.length_append, List.length_singleton]
  rcases hlt with hlength | ⟨hlength, hlt⟩
  · exact Or.inl (by omega)
  · exact Or.inr ⟨by omega, append_lt_append hlt hlength [v] [w]⟩

theorem rank_concat_le {p q : List V} (hle : rank p ≤ rank q) (v : V) :
    rank (p ++ [v]) ≤ rank (q ++ [v]) := by
  rcases hle.lt_or_eq with hlt | heq
  · exact (rank_concat_lt hlt v v).le
  · rw [rank_injective heq]

theorem rank_concat_lt_concat (p : List V) {v w : V} (hlt : v < w) :
    rank (p ++ [v]) < rank (p ++ [w]) := by
  rw [rank_lt_iff]
  exact Or.inr ⟨by simp, List.Lex.append_left (· < ·) (List.Lex.rel hlt) p⟩

theorem rank_lt_concat (p : List V) (v : V) : rank p < rank (p ++ [v]) := by
  rw [rank_lt_iff]
  exact Or.inl (by simp)

end Rank

/-! ## What a search has explored -/

variable {V : Type*} [LinearOrder V] {adj : V → List V} {src : V}

/-- The vertices of `done` are expanded along `scanned`, those of the queue are
not; `tree` gives each discovered vertex the path that discovered it. -/
structure Explored (adj : V → List V) (src : V) (done : List V) (scanned tree : V → List V)
    (s : Search V) : Prop where
  root : s.pred src = some src
  tree_root : tree src = [src]
  discovered : ∀ v, (s.pred v).isSome ↔ v ∈ done ++ s.queue
  sorted : (done ++ s.queue).Pairwise fun a b => rank (tree a) < rank (tree b)
  pred_step : ∀ v p, s.pred v = some p → v ≠ src →
    p ∈ done ∧ v ∈ scanned p ∧ tree v = tree p ++ [v]
  scanned_subset : ∀ u, ∀ v ∈ scanned u, v ∈ adj u
  closed : ∀ u ∈ done, ∀ w ∈ scanned u,
    (s.pred w).isSome ∧ rank (tree w) ≤ rank (tree u ++ [w])
  path : ∀ v, (s.pred v).isSome → Path adj src (tree v) v
  within : ∀ v, (s.pred v).isSome → ∀ x ∈ tree v, (s.pred x).isSome
  nodup : ∀ v, (s.pred v).isSome → (tree v).Nodup

theorem Explored.start (adj : V → List V) (src : V) :
    Explored adj src [] (fun _ => []) (fun v => [v]) (Search.start src) := by
  have hpred : ∀ v, (Search.start src).pred v = if v = src then some src else none := fun _ => rfl
  have hsrc : ∀ v, ((Search.start src).pred v).isSome ↔ v = src := by
    intro v
    rw [hpred]
    split <;> simp [*]
  constructor
  · rw [hpred, if_pos rfl]
  · rfl
  · intro v
    rw [hsrc]
    simp [Search.start]
  · exact List.pairwise_singleton _ _
  · intro v p hv hne
    rw [hpred, if_neg hne] at hv
    cases hv
  · simp
  · simp
  · intro v hv
    rw [(hsrc v).mp hv]
    exact Path.start
  · intro v hv x hx
    rw [List.mem_singleton] at hx
    exact hx ▸ hv
  · simp

namespace Explored

variable {done : List V} {scanned tree : V → List V} {s : Search V}

/-- What is known of a vertex is the root, or a neighbour of an expanded one. -/
theorem eq_src_or_step (hexplored : Explored adj src done scanned tree s) {v : V}
    (hv : (s.pred v).isSome) : v = src ∨
      ∃ p ∈ done, s.pred v = some p ∧ v ∈ scanned p ∧ tree v = tree p ++ [v] := by
  by_cases heq : v = src
  · exact Or.inl heq
  · obtain ⟨p, hp⟩ := Option.isSome_iff_exists.mp hv
    obtain ⟨hdone, hscanned, htree⟩ := hexplored.pred_step v p hp heq
    exact Or.inr ⟨p, hdone, hp, hscanned, htree⟩

/-- Discovered paths precede those the expanded vertex is about to extend. -/
theorem rank_lt_extension {current : V} {front : List V}
    (hexplored : Explored adj src (front ++ [current]) scanned tree s) {n : V}
    (hbelow : ∀ x ∈ scanned current, x < n) {x : V} (hx : (s.pred x).isSome) :
    rank (tree x) < rank (tree current ++ [n]) := by
  have hcurrent : (s.pred current).isSome := (hexplored.discovered current).mpr (by simp)
  rcases hexplored.eq_src_or_step hx with rfl | ⟨p, hp, -, hscanned, htree⟩
  · rw [hexplored.tree_root, rank_lt_iff]
    have hpos := (hexplored.path current hcurrent).length_pos
    exact Or.inl (by simp; omega)
  · rw [htree]
    rcases List.mem_append.mp hp with hfront | hlast
    · have hsorted := hexplored.sorted
      rw [List.append_assoc, List.pairwise_append] at hsorted
      exact rank_concat_lt (hsorted.2.2 p hfront current (by simp)) x n
    · rw [List.mem_singleton] at hlast
      subst hlast
      exact rank_concat_lt_concat _ (hbelow x hscanned)

/-- A neighbour already discovered has a path at least as good. -/
theorem rank_le_extension {current : V} {front : List V}
    (hexplored : Explored adj src (front ++ [current]) scanned tree s) {n : V}
    (hn : (s.pred n).isSome) : rank (tree n) ≤ rank (tree current ++ [n]) := by
  have hcurrent : (s.pred current).isSome := (hexplored.discovered current).mpr (by simp)
  rcases hexplored.eq_src_or_step hn with rfl | ⟨p, hp, -, -, htree⟩
  · rw [hexplored.tree_root, rank_le_iff]
    have hpos := (hexplored.path current hcurrent).length_pos
    exact Or.inl (by simp; omega)
  · rw [htree]
    apply rank_concat_le
    rcases List.mem_append.mp hp with hfront | hlast
    · have hsorted := hexplored.sorted
      rw [List.append_assoc, List.pairwise_append] at hsorted
      exact (hsorted.2.2 p hfront current (by simp)).le
    · rw [List.mem_singleton] at hlast
      rw [hlast]

/-- The expanded vertices once `current` is expanded along `n` as well. -/
def scanNext (scanned : V → List V) (current n : V) : V → List V :=
  Function.update scanned current (scanned current ++ [n])

theorem mem_scanNext {current n u v : V} :
    v ∈ scanNext scanned current n u ↔ v ∈ scanned u ∨ u = current ∧ v = n := by
  by_cases hu : u = current
  · subst hu
    simp [scanNext]
  · simp [scanNext, hu]

theorem scanNext_of_ne {current n u : V} (hu : u ≠ current) :
    scanNext scanned current n u = scanned u := Function.update_of_ne hu _ _

/-- Passing a neighbour that is already discovered. -/
theorem skip {current : V} {front : List V}
    (hexplored : Explored adj src (front ++ [current]) scanned tree s) {n : V}
    (hadj : n ∈ adj current) (hn : (s.pred n).isSome) :
    Explored adj src (front ++ [current]) (scanNext scanned current n) tree s := by
  refine { hexplored with pred_step := ?_, scanned_subset := ?_, closed := ?_ }
  · intro v p hv hne
    obtain ⟨hp, hscanned, htree⟩ := hexplored.pred_step v p hv hne
    exact ⟨hp, mem_scanNext.mpr (Or.inl hscanned), htree⟩
  · intro u v hv
    rcases mem_scanNext.mp hv with hv | ⟨rfl, rfl⟩
    · exact hexplored.scanned_subset u v hv
    · exact hadj
  · intro u hu w hw
    rcases mem_scanNext.mp hw with hw | ⟨rfl, rfl⟩
    · exact hexplored.closed u hu w hw
    · exact ⟨hn, hexplored.rank_le_extension hn⟩

/-- The paths once `n` is discovered from `current`. -/
def extendTree (tree : V → List V) (current n : V) : V → List V :=
  Function.update tree n (tree current ++ [n])

theorem extendTree_self (tree : V → List V) (current n : V) :
    extendTree tree current n n = tree current ++ [n] := Function.update_self _ _ _

section Discover

variable {current n : V} {front : List V}

/-- Paths discovered before stay. -/
theorem extendTree_of_isSome (hn : s.pred n = none) {v : V} (hv : (s.pred v).isSome) :
    extendTree tree current n v = tree v :=
  Function.update_of_ne (PartialMap.ne_of_isSome hn hv) _ _

/-- The new vertex is the last to be expanded, and its path the last one. -/
theorem discover_sorted (hexplored : Explored adj src (front ++ [current]) scanned tree s)
    (hn : s.pred n = none) (hbelow : ∀ x ∈ scanned current, x < n) :
    (front ++ [current] ++ (s.queue ++ [n])).Pairwise fun a b =>
      rank (extendTree tree current n a) < rank (extendTree tree current n b) := by
  have hmem : ∀ v ∈ front ++ [current] ++ s.queue, (s.pred v).isSome := fun v =>
    (hexplored.discovered v).mpr
  rw [← List.append_assoc, List.pairwise_append]
  refine ⟨?_, List.pairwise_singleton _ _, ?_⟩
  · refine hexplored.sorted.imp_of_mem ?_
    intro a b ha hb hab
    rw [extendTree_of_isSome hn (hmem a ha), extendTree_of_isSome hn (hmem b hb)]
    exact hab
  · intro a ha b hb
    rw [List.mem_singleton] at hb
    rw [hb, extendTree_of_isSome hn (hmem a ha), extendTree_self]
    exact hexplored.rank_lt_extension hbelow (hmem a ha)

theorem discover_pred_step (hexplored : Explored adj src (front ++ [current]) scanned tree s)
    (hn : s.pred n = none) {v p : V} (hv : s.pred.insert n current v = some p) (hne : v ≠ src) :
    p ∈ front ++ [current] ∧ v ∈ scanNext scanned current n p ∧
      extendTree tree current n v = extendTree tree current n p ++ [v] := by
  have hmem : ∀ v ∈ front ++ [current], (s.pred v).isSome := fun v hv =>
    (hexplored.discovered v).mpr (List.mem_append_left _ hv)
  by_cases heq : v = n
  · subst heq
    rw [PartialMap.insert_self, Option.some_inj] at hv
    subst hv
    rw [extendTree_self, extendTree_of_isSome hn (hmem _ (by simp))]
    exact ⟨by simp, mem_scanNext.mpr (Or.inr ⟨rfl, rfl⟩), rfl⟩
  · rw [PartialMap.insert_of_ne _ _ heq] at hv
    obtain ⟨hp, hscanned, htree⟩ := hexplored.pred_step v p hv hne
    rw [extendTree_of_isSome hn (by simp [hv]), extendTree_of_isSome hn (hmem p hp)]
    exact ⟨hp, mem_scanNext.mpr (Or.inl hscanned), htree⟩

theorem discover_closed (hexplored : Explored adj src (front ++ [current]) scanned tree s)
    (hn : s.pred n = none) {u w : V} (hu : u ∈ front ++ [current])
    (hw : w ∈ scanNext scanned current n u) :
    (s.pred.insert n current w).isSome ∧
      rank (extendTree tree current n w) ≤ rank (extendTree tree current n u ++ [w]) := by
  have hu_some := (hexplored.discovered u).mpr (List.mem_append_left _ hu)
  rw [extendTree_of_isSome hn hu_some, PartialMap.insert_isSome_iff]
  rcases mem_scanNext.mp hw with hw | ⟨rfl, rfl⟩
  · obtain ⟨hw_some, hle⟩ := hexplored.closed u hu w hw
    rw [extendTree_of_isSome hn hw_some]
    exact ⟨Or.inl hw_some, hle⟩
  · rw [extendTree_self]
    exact ⟨Or.inr rfl, le_rfl⟩

theorem discover_nodup (hexplored : Explored adj src (front ++ [current]) scanned tree s)
    (hn : s.pred n = none) : (tree current ++ [n]).Nodup := by
  have hcurrent : (s.pred current).isSome := (hexplored.discovered current).mpr (by simp)
  rw [List.nodup_append]
  refine ⟨hexplored.nodup current hcurrent, List.nodup_singleton n, ?_⟩
  intro a ha b hb
  rw [List.mem_singleton] at hb
  rw [hb]
  exact PartialMap.ne_of_isSome hn (hexplored.within current hcurrent a ha)

/-- Discovering a neighbour and queueing it. -/
theorem discover (hexplored : Explored adj src (front ++ [current]) scanned tree s)
    (hadj : n ∈ adj current) (hn : s.pred n = none) (hbelow : ∀ x ∈ scanned current, x < n) :
    Explored adj src (front ++ [current]) (scanNext scanned current n)
      (extendTree tree current n)
      { s with pred := s.pred.insert n current, queue := s.queue ++ [n] } := by
  have hcurrent : (s.pred current).isSome := (hexplored.discovered current).mpr (by simp)
  have hsrc : (s.pred src).isSome := by simp [hexplored.root]
  constructor
  · change s.pred.insert n current src = some src
    rw [PartialMap.insert_of_ne _ _ (PartialMap.ne_of_isSome hn hsrc)]
    exact hexplored.root
  · rw [extendTree_of_isSome hn hsrc]
    exact hexplored.tree_root
  · intro v
    rw [PartialMap.insert_isSome_iff, hexplored.discovered]
    simp [or_assoc]
  · exact hexplored.discover_sorted hn hbelow
  · intro v p hv hne
    exact hexplored.discover_pred_step hn hv hne
  · intro u v hv
    rcases mem_scanNext.mp hv with hv | ⟨rfl, rfl⟩
    · exact hexplored.scanned_subset u v hv
    · exact hadj
  · intro u hu w hw
    exact hexplored.discover_closed hn hu hw
  · intro v hv
    rcases PartialMap.insert_isSome_iff.mp hv with hv | rfl
    · rw [extendTree_of_isSome hn hv]
      exact hexplored.path v hv
    · rw [extendTree_self]
      exact (hexplored.path current hcurrent).snoc hadj
  · intro v hv x hx
    rw [PartialMap.insert_isSome_iff]
    rcases PartialMap.insert_isSome_iff.mp hv with hv | rfl
    · rw [extendTree_of_isSome hn hv] at hx
      exact Or.inl (hexplored.within v hv x hx)
    · rw [extendTree_self, List.mem_append, List.mem_singleton] at hx
      exact hx.imp (hexplored.within current hcurrent x) id
  · intro v hv
    rcases PartialMap.insert_isSome_iff.mp hv with hv | rfl
    · rw [extendTree_of_isSome hn hv]
      exact hexplored.nodup v hv
    · rw [extendTree_self]
      exact hexplored.discover_nodup hn

end Discover

/-- Taking the next vertex from the queue. -/
theorem pop {current : V} {rest : List V} (hexplored : Explored adj src done scanned tree s)
    (hqueue : s.queue = current :: rest) (hfresh : scanned current = []) :
    Explored adj src (done ++ [current]) scanned tree { s with queue := rest } := by
  have hsplit : done ++ s.queue = done ++ [current] ++ rest := by simp [hqueue]
  refine { hexplored with discovered := ?_, sorted := ?_, pred_step := ?_, closed := ?_ }
  · intro v
    rw [← hsplit]
    exact hexplored.discovered v
  · rw [← hsplit]
    exact hexplored.sorted
  · intro v p hv hne
    obtain ⟨hp, hrest⟩ := hexplored.pred_step v p hv hne
    exact ⟨List.mem_append_left _ hp, hrest⟩
  · intro u hu w hw
    rcases List.mem_append.mp hu with hu | hu
    · exact hexplored.closed u hu w hw
    · rw [List.mem_singleton.mp hu, hfresh] at hw
      cases hw

theorem nodup_discovered (hexplored : Explored adj src done scanned tree s) :
    (done ++ s.queue).Nodup :=
  hexplored.sorted.imp fun hlt heq => absurd (heq ▸ hlt) (lt_irrefl _)

/-- The discovered vertices stay within a set closed under neighbours. -/
theorem mem_universe (hexplored : Explored adj src done scanned tree s) {U : List V}
    (hsrc : src ∈ U) (hU : ∀ u, ∀ v ∈ adj u, v ∈ U) {v : V} (hv : (s.pred v).isSome) :
    v ∈ U := by
  rcases hexplored.eq_src_or_step hv with rfl | ⟨p, -, -, hscanned, -⟩
  · exact hsrc
  · exact hU p v (hexplored.scanned_subset p v hscanned)

theorem length_done_le (hexplored : Explored adj src done scanned tree s) {U : List V}
    (hsrc : src ∈ U) (hU : ∀ u, ∀ v ∈ adj u, v ∈ U) : done.length ≤ U.length := by
  have hnodup := (List.nodup_append.mp hexplored.nodup_discovered).1
  refine (List.subperm_of_subset hnodup ?_).length_le
  intro v hv
  have hsome := (hexplored.discovered v).mpr (List.mem_append_left _ hv)
  exact hexplored.mem_universe hsrc hU hsome

theorem length_tree_le (hexplored : Explored adj src done scanned tree s) {U : List V}
    (hsrc : src ∈ U) (hU : ∀ u, ∀ v ∈ adj u, v ∈ U) {v : V} (hv : (s.pred v).isSome) :
    (tree v).length ≤ U.length := by
  refine (List.subperm_of_subset (hexplored.nodup v hv) ?_).length_le
  intro x hx
  exact hexplored.mem_universe hsrc hU (hexplored.within v hv x hx)

/-- Walking back from a discovered vertex reverses its path. -/
theorem walkBack_eq (hexplored : Explored adj src done scanned tree s) {fuel : Nat} {v : V}
    (hv : (s.pred v).isSome) (hfuel : (tree v).length ≤ fuel) :
    walkBack s.pred fuel v = some (tree v).reverse := by
  induction fuel generalizing v with
  | zero =>
      have hpos := (hexplored.path v hv).length_pos
      omega
  | succ fuel ih =>
      rw [walkBack]
      rcases hexplored.eq_src_or_step hv with rfl | ⟨p, hp, hpred, -, htree⟩
      · simp [hexplored.root, hexplored.tree_root]
      · have hne : p ≠ v := by
          rintro rfl
          have hlength := congrArg List.length htree
          simp at hlength
        have hp_some := (hexplored.discovered p).mpr (List.mem_append_left _ hp)
        rw [htree, List.length_append, List.length_singleton] at hfuel
        rw [hpred]
        simp only [if_neg hne]
        rw [ih hp_some (by omega), htree]
        simp

end Explored

/-! ## How a search ends -/

/-- The expanded vertices are expanded along all their neighbours, the others
along none. -/
structure Progress (adj : V → List V) (src : V) (done : List V) (scanned tree : V → List V)
    (s : Search V) : Prop where
  explored : Explored adj src done scanned tree s
  full : ∀ u ∈ done, scanned u = adj u
  fresh : ∀ u, u ∉ done → scanned u = []

/-- The goal was discovered while `current` was being expanded. The queue of the
explored search holds the goal as well. -/
structure Reached (adj : V → List V) (src goal : V) (front : List V) (current : V)
    (scanned tree : V → List V) (s : Search V) : Prop where
  explored : ∃ queue, Explored adj src (front ++ [current]) scanned tree { s with queue := queue }
  full : ∀ u ∈ front, scanned u = adj u
  goal_pred : s.pred goal = some current

theorem scan_spec {goal current : V} {front : List V} (hsorted : (adj current).Pairwise (· < ·))
    (neighbors : List V) {scanned tree : V → List V} {s : Search V}
    (hexplored : Explored adj src (front ++ [current]) scanned tree s)
    (hsplit : adj current = scanned current ++ neighbors)
    (hfull : ∀ u ∈ front, scanned u = adj u)
    (hfresh : ∀ u, u ∉ front ++ [current] → scanned u = [])
    (hstopped : s.stopped = false) (hgoal : s.pred goal = none) :
    ((scan goal current neighbors s).stopped = false ∧
      (scan goal current neighbors s).pred goal = none ∧
      ∃ scanned' tree', Progress adj src (front ++ [current]) scanned' tree'
        (scan goal current neighbors s)) ∨
    ((scan goal current neighbors s).stopped = true ∧
      ∃ scanned' tree', Reached adj src goal front current scanned' tree'
        (scan goal current neighbors s)) := by
  have hcurrent : current ∉ front := by
    have hnodup := hexplored.nodup_discovered
    rw [List.append_assoc, List.nodup_append] at hnodup
    exact fun hmem => hnodup.2.2 current hmem current (by simp) rfl
  induction neighbors generalizing scanned tree s with
  | nil =>
      left
      refine ⟨hstopped, hgoal, scanned, tree, hexplored, ?_, hfresh⟩
      intro u hu
      rcases List.mem_append.mp hu with hu | hu
      · exact hfull u hu
      · rw [List.mem_singleton.mp hu, hsplit, List.append_nil]
  | cons n rest ih =>
      have hadj : n ∈ adj current := by simp [hsplit]
      have hsplit' : adj current = Explored.scanNext scanned current n current ++ rest := by
        simp [Explored.scanNext, hsplit]
      have hfull' : ∀ u ∈ front, Explored.scanNext scanned current n u = adj u := by
        intro u hu
        have hne : u ≠ current := fun heq => hcurrent (heq ▸ hu)
        rw [Explored.scanNext_of_ne hne]
        exact hfull u hu
      have hfresh' : ∀ u, u ∉ front ++ [current] →
          Explored.scanNext scanned current n u = [] := by
        intro u hu
        have hne : u ≠ current := fun heq => hu (by simp [heq])
        rw [Explored.scanNext_of_ne hne]
        exact hfresh u hu
      rw [scan]
      cases hn : s.pred n with
      | some p =>
          exact ih (hexplored.skip hadj (by simp [hn])) hsplit' hfull' hfresh' hstopped hgoal
      | none =>
          have hbelow : ∀ x ∈ scanned current, x < n := by
            intro x hx
            rw [hsplit, List.pairwise_append] at hsorted
            exact hsorted.2.2 x hx n List.mem_cons_self
          have hdiscover := hexplored.discover hadj hn hbelow
          by_cases heq : n = goal
          · right
            subst heq
            simp only [if_true]
            exact ⟨trivial, _, _, ⟨s.queue ++ [n], { hdiscover with }⟩, hfull',
              PartialMap.insert_self _ _ _⟩
          · simp only [if_neg heq]
            exact ih hdiscover hsplit' hfull' hfresh' hstopped
              ((PartialMap.insert_of_ne _ _ (Ne.symm heq)).trans hgoal)

theorem search_of_stopped {goal : V} (fuel : Nat) {s : Search V} (hstopped : s.stopped = true) :
    search adj goal fuel s = s := by
  cases fuel with
  | zero => rfl
  | succ fuel => rw [search, if_pos hstopped]

/-- A search with fuel for every vertex drains its queue or stops at the goal. -/
theorem search_spec {goal : V} (hsorted : ∀ u, (adj u).Pairwise (· < ·)) {U : List V}
    (hsrc : src ∈ U) (hU : ∀ u, ∀ v ∈ adj u, v ∈ U) (fuel : Nat) {done : List V}
    {scanned tree : V → List V} {s : Search V} (hprogress : Progress adj src done scanned tree s)
    (hstopped : s.stopped = false) (hgoal : s.pred goal = none)
    (hfuel : U.length < fuel + done.length) :
    ((search adj goal fuel s).queue = [] ∧ (search adj goal fuel s).pred goal = none ∧
      ∃ done' scanned' tree', Progress adj src done' scanned' tree' (search adj goal fuel s)) ∨
    ((search adj goal fuel s).stopped = true ∧ ∃ front current scanned' tree',
      Reached adj src goal front current scanned' tree' (search adj goal fuel s)) := by
  induction fuel generalizing done scanned tree s with
  | zero =>
      have hle := hprogress.explored.length_done_le hsrc hU
      omega
  | succ fuel ih =>
      rw [search, if_neg (by simp [hstopped])]
      cases hqueue : s.queue with
      | nil => exact Or.inl ⟨hqueue, hgoal, done, scanned, tree, hprogress⟩
      | cons current rest =>
          have hnot : current ∉ done := by
            have hnodup := hprogress.explored.nodup_discovered
            rw [hqueue, List.nodup_append] at hnodup
            exact fun hmem => hnodup.2.2 current hmem current List.mem_cons_self rfl
          have hfresh := hprogress.fresh current hnot
          have hpop := hprogress.explored.pop hqueue hfresh
          have hrest : ∀ u, u ∉ done ++ [current] → scanned u = [] := by
            intro u hu
            exact hprogress.fresh u fun hmem => hu (List.mem_append_left _ hmem)
          rcases scan_spec (hsorted current) (adj current) hpop (by rw [hfresh, List.nil_append])
            hprogress.full hrest hstopped hgoal with
            ⟨hstopped', hgoal', scanned', tree', hprogress'⟩ |
              ⟨hstopped', scanned', tree', hreached⟩
          · apply ih hprogress' hstopped' hgoal'
            rw [List.length_append, List.length_singleton]
            omega
          · right
            dsimp only
            rw [search_of_stopped fuel hstopped']
            exact ⟨hstopped', done, current, scanned', tree', hreached⟩

/-! ## The least path -/

/-- Once the queue is empty whatever a path reaches is expanded. -/
theorem Progress.mem_of_path {done : List V} {scanned tree : V → List V} {s : Search V}
    (hprogress : Progress adj src done scanned tree s) (hqueue : s.queue = []) {p : List V}
    {v : V} (hpath : Path adj src p v) : v ∈ done := by
  have hdone : ∀ {v}, (s.pred v).isSome → v ∈ done := by
    intro v hv
    simpa [hqueue] using (hprogress.explored.discovered v).mp hv
  induction hpath with
  | start => exact hdone (by simp [hprogress.explored.root])
  | snoc _ hv ih =>
      rw [← hprogress.full _ ih] at hv
      exact hdone (hprogress.explored.closed _ ih _ hv).1

namespace Reached

variable {goal current : V} {front : List V} {scanned tree : V → List V} {s : Search V}

/-- A path either stays among the fully expanded vertices and is no better than
the tree's, or has met a vertex that was not expanded before `current`. -/
theorem le_of_path (hreached : Reached adj src goal front current scanned tree s) {p : List V}
    {v : V} (hpath : Path adj src p v) :
    (v ∈ front ∧ rank (tree v) ≤ rank p) ∨ rank (tree current) ≤ rank p := by
  obtain ⟨queue, hexplored⟩ := hreached.explored
  have hpending : ∀ {v}, (s.pred v).isSome → v ∉ front →
      rank (tree current) ≤ rank (tree v) := by
    intro v hv hfront
    have hmem := (hexplored.discovered v).mp hv
    have hsorted := hexplored.sorted
    simp only [List.append_assoc, List.mem_append, hfront, false_or, List.mem_singleton] at hmem
    rw [List.append_assoc, List.pairwise_append, List.singleton_append,
      List.pairwise_cons] at hsorted
    rcases hmem with rfl | hmem
    · exact le_rfl
    · exact (hsorted.2.1.1 v hmem).le
  induction hpath with
  | start =>
      by_cases hfront : src ∈ front
      · exact Or.inl ⟨hfront, by rw [hexplored.tree_root]⟩
      · right
        have hroot : (s.pred src).isSome := Option.isSome_of_eq_some hexplored.root
        rw [← hexplored.tree_root]
        exact hpending hroot hfront
  | @snoc p u v _ hv ih =>
      rcases ih with ⟨hu, hle⟩ | hle
      · rw [← hreached.full u hu] at hv
        obtain ⟨hsome, hclosed⟩ := hexplored.closed u (List.mem_append_left _ hu) v hv
        have htree := hclosed.trans (rank_concat_le hle v)
        by_cases hfront : v ∈ front
        · exact Or.inl ⟨hfront, htree⟩
        · exact Or.inr ((hpending hsome hfront).trans htree)
      · exact Or.inr (hle.trans (rank_lt_concat p v).le)

/-- The path to the goal is the least of all. -/
theorem rank_tree_le (hreached : Reached adj src goal front current scanned tree s)
    (hne : goal ≠ src) {p : List V} (hpath : Path adj src p goal) :
    rank (tree goal) ≤ rank p := by
  obtain ⟨queue, hexplored⟩ := hreached.explored
  obtain ⟨-, -, htree⟩ := hexplored.pred_step goal current hreached.goal_pred hne
  cases hpath with
  | start => exact absurd rfl hne
  | @snoc p u _ hp hv =>
      rcases hreached.le_of_path hp with ⟨hu, hle⟩ | hle
      · rw [← hreached.full u hu] at hv
        obtain ⟨-, hclosed⟩ := hexplored.closed u (List.mem_append_left _ hu) goal hv
        exact hclosed.trans (rank_concat_le hle goal)
      · rw [htree]
        exact rank_concat_le hle goal

end Reached

/-- The search ends; it misses the goal when no path leads there, and otherwise
walking back from the goal gives the least path, which repeats no vertex. -/
theorem search_start_spec {goal : V} (hsorted : ∀ u, (adj u).Pairwise (· < ·)) {U : List V}
    (hsrc : src ∈ U) (hU : ∀ u, ∀ v ∈ adj u, v ∈ U) {fuel : Nat} (hfuel : U.length < fuel)
    (hne : goal ≠ src) :
    ((search adj goal fuel (Search.start src)).queue = [] ∧
      (search adj goal fuel (Search.start src)).pred goal = none ∧
      ¬ ∃ p, Path adj src p goal) ∨
    ((search adj goal fuel (Search.start src)).stopped = true ∧
      ((search adj goal fuel (Search.start src)).pred goal).isSome ∧
      ∃ p, walkBack (search adj goal fuel (Search.start src)).pred fuel goal = some p.reverse ∧
        Path adj src p goal ∧ p.Nodup ∧ ∀ q, Path adj src q goal → rank p ≤ rank q) := by
  have hprogress : Progress adj src [] (fun _ => []) (fun v => [v]) (Search.start src) :=
    ⟨Explored.start adj src, by simp, fun _ _ => rfl⟩
  have hgoal : (Search.start src).pred goal = none := PartialMap.insert_of_ne _ _ hne
  rcases search_spec hsorted hsrc hU fuel hprogress rfl hgoal (by simpa using hfuel) with
    ⟨hqueue, hnone, done, scanned, tree, hprogress⟩ |
    ⟨hstopped, front, current, scanned, tree, hreached⟩
  · refine Or.inl ⟨hqueue, hnone, ?_⟩
    intro ⟨p, hpath⟩
    have hmem := hprogress.mem_of_path hqueue hpath
    have hsome := (hprogress.explored.discovered goal).mpr (List.mem_append_left _ hmem)
    simp [hnone] at hsome
  · obtain ⟨queue, hexplored⟩ := hreached.explored
    have hsome : ((search adj goal fuel (Search.start src)).pred goal).isSome := by
      simp [hreached.goal_pred]
    refine Or.inr ⟨hstopped, hsome, tree goal, ?_, hexplored.path goal hsome,
      hexplored.nodup goal hsome, fun q hq => hreached.rank_tree_le hne hq⟩
    have hlength := hexplored.length_tree_le hsrc hU hsome
    exact hexplored.walkBack_eq hsome (by omega)

end BreadthFirst
