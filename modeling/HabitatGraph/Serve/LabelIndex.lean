import HabitatGraph.Core.Schema
import HabitatGraph.Foundation.PartialMap
import HabitatGraph.Foundation.SortedList
import Mathlib.Data.List.AList
import Mathlib.Data.List.Infix

/-! # The label index

Lowercased labels are indexed by their trigrams. A needle of three characters or
more is looked up by intersecting the posting lists of its trigrams and checking
what remains; a shorter one is searched in every label.
-/

namespace HabitatGraph

open SortedList

/-- Three consecutive characters. -/
abbrev Trigram := Char × Char × Char

def windows3 : List Char → List Trigram
  | a :: b :: c :: rest => (a, b, c) :: windows3 (b :: c :: rest)
  | _ => []

/-- The overlapping trigrams of a string. -/
def extractTrigrams (s : String) : List Trigram :=
  if s.toList.length < 3 then [] else windows3 s.toList

/-- Whether a string occurs in another. -/
def strContains (s needle : String) : Bool := decide (needle.toList <:+: s.toList)

structure LabelIndex where
  trigramIndex : PartialMap Trigram (List NodeId)
  lowerLabels : AList fun _ : NodeId => String
  allIds : List NodeId

namespace LabelIndex

/-- Intersect the candidates with the posting list of each trigram; `none` once
nothing can be left. -/
def intersectPostings (index : PartialMap Trigram (List NodeId)) :
    List Trigram → List NodeId → Option (List NodeId)
  | [], candidates => some candidates
  | tg :: tgs, candidates =>
      if candidates.isEmpty then none
      else match index tg with
        | some list => intersectPostings index tgs (intersectSorted candidates list)
        | none => none

section Lowercase

variable (toLowercase : String → String)

/-- Index the labels of a graph. -/
def build (graph : Graph) : LabelIndex :=
  let lowerLabels := graph.nodes.foldl
    (fun labels node => labels.insert node.id (toLowercase node.label)) ∅
  let postings := PartialMap.grouped (graph.nodes.flatMap fun node =>
    (extractTrigrams (toLowercase node.label)).map fun tg => (tg, node.id))
  { trigramIndex := fun tg => (postings tg).map sortDedup
    lowerLabels := lowerLabels
    allIds := lowerLabels.keys.insertionSort (· ≤ ·) }

/-- The ids of the nodes whose label contains the needle. -/
def find (index : LabelIndex) (needle : String) : List NodeId :=
  let nl := toLowercase needle
  if nl.toList.isEmpty then index.allIds
  else if nl.toList.length < 3 then
    ((index.lowerLabels.entries.filter fun entry => strContains entry.2 nl).map
      Sigma.fst).insertionSort (· ≤ ·)
  else match windows3 nl.toList with
    | [] => []
    | first :: rest =>
        match index.trigramIndex first with
        | none => []
        | some candidates =>
            match intersectPostings index.trigramIndex rest candidates with
            | none => []
            | some candidates => candidates.filter fun id =>
                (index.lowerLabels.lookup id).any fun label => strContains label nl

end Lowercase

/-! ## Trigrams -/

theorem extractTrigrams_eq (s : String) : extractTrigrams s = windows3 s.toList := by
  unfold extractTrigrams
  split
  next hlength =>
    match hlist : s.toList with
    | [] => rfl
    | [_] => rfl
    | [_, _] => rfl
    | _ :: _ :: _ :: _ =>
        simp only [hlist, List.length_cons] at hlength
        omega
  next => rfl

theorem windows3_sublist_cons (a : Char) (xs : List Char) :
    (windows3 xs).Sublist (windows3 (a :: xs)) := by
  match xs with
  | [] => exact List.Sublist.refl _
  | [_] => exact List.Sublist.refl _
  | b :: c :: rest => exact List.sublist_cons_self _ _

theorem windows3_of_starts {xs ys : List Char} (hstarts : xs <+: ys) :
    windows3 xs <+: windows3 ys := by
  fun_induction windows3 xs generalizing ys with
  | case1 a b c rest ih =>
      obtain ⟨tail, rfl⟩ := hstarts
      simp only [List.cons_append, windows3, List.prefix_cons_inj]
      exact ih (List.prefix_append (b :: c :: rest) tail)
  | case2 => exact List.nil_prefix

/-- The trigrams of a substring are trigrams of the string. -/
theorem windows3_subset {xs ys : List Char} (hoccurs : xs <:+: ys) :
    windows3 xs ⊆ windows3 ys := by
  obtain ⟨front, back, rfl⟩ := hoccurs
  rw [List.append_assoc]
  induction front with
  | nil => exact (windows3_of_starts (List.prefix_append xs back)).subset
  | cons a front ih =>
      intro tg htg
      exact (windows3_sublist_cons a _).subset (ih htg)

/-! ## What an index holds -/

section Build

variable {toLowercase : String → String} {graph : Graph}

theorem lookup_foldl_insert {nodes : List Node} (hnodup : (nodes.map Node.id).Nodup)
    {id : NodeId} {label : String} :
    (nodes.foldl (fun labels node => labels.insert node.id (toLowercase node.label))
      (∅ : AList fun _ : NodeId => String)).lookup id = some label ↔
      ∃ node ∈ nodes, node.id = id ∧ toLowercase node.label = label := by
  induction nodes using List.reverseRecOn with
  | nil => simp
  | append_singleton nodes node ih =>
      rw [List.map_append, List.nodup_append] at hnodup
      obtain ⟨hnodes, -, hdisjoint⟩ := hnodup
      rw [List.foldl_append, List.foldl_cons, List.foldl_nil]
      by_cases hid : node.id = id
      · subst hid
        have hnone : ¬ ∃ other ∈ nodes, other.id = node.id ∧ toLowercase other.label = label := by
          intro ⟨other, hother, heq, _⟩
          exact hdisjoint other.id (List.mem_map_of_mem hother) node.id (by simp) heq
        simp only [AList.lookup_insert, List.mem_append, List.mem_singleton, or_and_right,
          exists_or, hnone, false_or]
        simp
      · simp only [AList.lookup_insert_ne (Ne.symm hid), ih hnodes, List.mem_append,
          List.mem_singleton, or_and_right, exists_or, exists_eq_left, hid, false_and, or_false]

theorem lookup_lowerLabels (hdistinct : (graph.nodes.map Node.id).Nodup) {id : NodeId}
    {label : String} : (build toLowercase graph).lowerLabels.lookup id = some label ↔
      ∃ node ∈ graph.nodes, node.id = id ∧ toLowercase node.label = label :=
  lookup_foldl_insert hdistinct

/-- A posting list holds the nodes whose label has the trigram, in order. -/
theorem posting_spec {tg : Trigram} {list : List NodeId}
    (hlist : (build toLowercase graph).trigramIndex tg = some list) :
    list.Pairwise (· < ·) ∧ ∀ id, id ∈ list ↔
      ∃ node ∈ graph.nodes, node.id = id ∧ tg ∈ windows3 (toLowercase node.label).toList := by
  obtain ⟨ids, hids, rfl⟩ := Option.map_eq_some_iff.mp hlist
  refine ⟨pairwise_sortDedup ids, ?_⟩
  intro id
  have hmem : id ∈ (PartialMap.grouped (graph.nodes.flatMap fun node =>
      (extractTrigrams (toLowercase node.label)).map fun tg => (tg, node.id)) tg).getD [] ↔ _ :=
    PartialMap.mem_getD_grouped
  rw [hids, Option.getD_some] at hmem
  rw [mem_sortDedup, hmem]
  simp only [List.mem_flatMap, List.mem_map, Prod.mk.injEq, extractTrigrams_eq]
  constructor
  · rintro ⟨node, hnode, tg', htg, rfl, hid⟩
    exact ⟨node, hnode, hid, htg⟩
  · intro ⟨node, hnode, hid, htg⟩
    exact ⟨node, hnode, tg, htg, rfl, hid⟩

theorem posting_none {tg : Trigram} (hnone : (build toLowercase graph).trigramIndex tg = none)
    {node : Node} (hnode : node ∈ graph.nodes) :
    tg ∉ windows3 (toLowercase node.label).toList := by
  have hgrouped := Option.map_eq_none_iff.mp hnone
  rw [PartialMap.grouped_eq_none_iff] at hgrouped
  intro htg
  apply hgrouped node.id
  simp only [List.mem_flatMap, List.mem_map, extractTrigrams_eq]
  exact ⟨node, hnode, tg, htg, rfl⟩

end Build

/-! ## Intersecting postings -/

/-- The trigram has a posting list, and the id is on it. -/
def InPosting (index : PartialMap Trigram (List NodeId)) (tg : Trigram) (id : NodeId) : Prop :=
  ∃ list, index tg = some list ∧ id ∈ list

section Postings

variable {index : PartialMap Trigram (List NodeId)}

theorem mem_intersectPostings
    (hsorted : ∀ tg list, index tg = some list → list.Pairwise (· < ·))
    {tgs : List Trigram} {candidates : List NodeId} (hcandidates : candidates.Pairwise (· < ·))
    {id : NodeId} :
    id ∈ (intersectPostings index tgs candidates).getD [] ↔
      id ∈ candidates ∧ ∀ tg ∈ tgs, InPosting index tg id := by
  induction tgs generalizing candidates with
  | nil => simp [intersectPostings]
  | cons tg tgs ih =>
      rw [intersectPostings, List.forall_mem_cons]
      split
      next hempty => simp [List.isEmpty_iff.mp hempty]
      next =>
        cases hlist : index tg with
        | none => simp [InPosting, hlist]
        | some list =>
            simp [ih (pairwise_intersectSorted hcandidates), InPosting, hlist,
              mem_intersectSorted hcandidates (hsorted tg list hlist), and_assoc]

theorem pairwise_intersectPostings {tgs : List Trigram} {candidates result : List NodeId}
    (hcandidates : candidates.Pairwise (· < ·))
    (hresult : intersectPostings index tgs candidates = some result) :
    result.Pairwise (· < ·) := by
  induction tgs generalizing candidates with
  | nil =>
      cases hresult
      exact hcandidates
  | cons tg tgs ih =>
      rw [intersectPostings] at hresult
      split at hresult
      next => cases hresult
      next =>
        split at hresult
        next => exact ih (pairwise_intersectSorted hcandidates) hresult
        next => cases hresult

end Postings

/-! ## Finding -/

section Find

variable {toLowercase : String → String} {graph : Graph}

/-- The id of a node whose label contains the needle, both lowercased. -/
def Carries (toLowercase : String → String) (graph : Graph) (needle : String) (id : NodeId) :
    Prop :=
  ∃ node ∈ graph.nodes, node.id = id ∧
    strContains (toLowercase node.label) (toLowercase needle) = true

/-- A node that carries the needle is on the posting list of each of its trigrams. -/
theorem inPosting_of_carries {needle : String} {id : NodeId}
    (hcarries : Carries toLowercase graph needle id) {tg : Trigram}
    (htg : tg ∈ windows3 (toLowercase needle).toList) :
    InPosting (build toLowercase graph).trigramIndex tg id := by
  obtain ⟨node, hnode, hid, hcontains⟩ := hcarries
  have htg' : tg ∈ windows3 (toLowercase node.label).toList :=
    windows3_subset (of_decide_eq_true hcontains) htg
  cases hlist : (build toLowercase graph).trigramIndex tg with
  | none => exact absurd htg' (posting_none hlist hnode)
  | some list => exact ⟨list, hlist, ((posting_spec hlist).2 id).mpr ⟨node, hnode, hid, htg'⟩⟩

theorem carries_iff_lookup (hdistinct : (graph.nodes.map Node.id).Nodup) {needle : String}
    {id : NodeId} : Carries toLowercase graph needle id ↔
      ∃ label, (build toLowercase graph).lowerLabels.lookup id = some label ∧
        strContains label (toLowercase needle) = true := by
  simp only [lookup_lowerLabels hdistinct]
  constructor
  · intro ⟨node, hnode, hid, hcontains⟩
    exact ⟨_, ⟨node, hnode, hid, rfl⟩, hcontains⟩
  · rintro ⟨_, ⟨node, hnode, hid, rfl⟩, hcontains⟩
    exact ⟨node, hnode, hid, hcontains⟩

theorem verify_iff_carries (hdistinct : (graph.nodes.map Node.id).Nodup) {needle : String}
    {id : NodeId} : (((build toLowercase graph).lowerLabels.lookup id).any fun label =>
      strContains label (toLowercase needle)) = true ↔ Carries toLowercase graph needle id := by
  rw [carries_iff_lookup hdistinct, Option.any_eq_true]

/-- Every node carries the empty needle. -/
theorem find_empty (hdistinct : (graph.nodes.map Node.id).Nodup) {needle : String}
    (hempty : (toLowercase needle).toList = []) {id : NodeId} :
    id ∈ (build toLowercase graph).allIds ↔ Carries toLowercase graph needle id := by
  rw [carries_iff_lookup hdistinct]
  change id ∈ ((build toLowercase graph).lowerLabels.keys.insertionSort (· ≤ ·)) ↔ _
  rw [List.mem_insertionSort, ← AList.mem_keys, ← AList.lookup_isSome, Option.isSome_iff_exists]
  simp [strContains, hempty]

theorem mem_shortScan (hdistinct : (graph.nodes.map Node.id).Nodup) {needle : String}
    {id : NodeId} :
    id ∈ (((build toLowercase graph).lowerLabels.entries.filter fun entry =>
      strContains entry.2 (toLowercase needle)).map Sigma.fst).insertionSort (· ≤ ·) ↔
      Carries toLowercase graph needle id := by
  rw [carries_iff_lookup hdistinct, List.mem_insertionSort, List.mem_map]
  constructor
  · rintro ⟨⟨id, label⟩, hentry, rfl⟩
    rw [List.mem_filter] at hentry
    exact ⟨label, AList.mem_lookup_iff.mpr hentry.1, hentry.2⟩
  · intro ⟨label, hlookup, hcontains⟩
    exact ⟨⟨id, label⟩, List.mem_filter.mpr ⟨AList.mem_lookup_iff.mp hlookup, hcontains⟩, rfl⟩

theorem nodup_shortScan (labels : AList fun _ : NodeId => String)
    (p : (Sigma fun _ : NodeId => String) → Bool) :
    ((labels.entries.filter p).map Sigma.fst).Nodup :=
  labels.keys_nodup.sublist (List.filter_sublist.map Sigma.fst)

theorem sorted_of_posting {tg : Trigram} {list : List NodeId}
    (hlist : (build toLowercase graph).trigramIndex tg = some list) : list.Pairwise (· < ·) :=
  (posting_spec hlist).1

/-- A node that carries the needle outlives the intersection of its postings. -/
theorem mem_intersectPostings_of_carries {needle : String} {first : Trigram}
    {rest : List Trigram} (hwindows : windows3 (toLowercase needle).toList = first :: rest)
    {candidates : List NodeId}
    (hcandidates : (build toLowercase graph).trigramIndex first = some candidates)
    {id : NodeId} (hcarries : Carries toLowercase graph needle id) :
    id ∈ (intersectPostings (build toLowercase graph).trigramIndex rest candidates).getD [] := by
  rw [mem_intersectPostings (fun _ _ => sorted_of_posting) (sorted_of_posting hcandidates)]
  constructor
  · obtain ⟨list, hlist, hid⟩ := inPosting_of_carries hcarries (hwindows ▸ List.mem_cons_self)
    rw [hcandidates] at hlist
    cases hlist
    exact hid
  · intro tg htg
    exact inPosting_of_carries hcarries (hwindows ▸ List.mem_cons_of_mem first htg)

theorem windows3_ne_nil {xs : List Char} (hlength : ¬ xs.length < 3) : windows3 xs ≠ [] := by
  match xs with
  | [] => simp at hlength
  | [_] => simp at hlength
  | [_, _] => simp at hlength
  | _ :: _ :: _ :: _ => simp [windows3]

/-- What the index finds is sorted and carries the needle. -/
theorem find_carriers (hdistinct : (graph.nodes.map Node.id).Nodup) (needle : String) :
    ((build toLowercase graph).find toLowercase needle).Pairwise (· < ·) ∧
      ∀ id, id ∈ (build toLowercase graph).find toLowercase needle ↔
        Carries toLowercase graph needle id := by
  unfold find
  dsimp only
  split
  next hempty =>
    exact ⟨pairwise_insertionSort_of_nodup (AList.keys_nodup _),
      fun id => find_empty hdistinct (List.isEmpty_iff.mp hempty)⟩
  next =>
    split
    next =>
      exact ⟨pairwise_insertionSort_of_nodup (nodup_shortScan _ _),
        fun id => mem_shortScan hdistinct⟩
    next hlength =>
      split
      next hwindows => exact absurd hwindows (windows3_ne_nil hlength)
      next first rest hwindows =>
        split
        next hnone =>
          refine ⟨List.Pairwise.nil, fun id => ?_⟩
          simp only [List.not_mem_nil, false_iff]
          intro hcarries
          obtain ⟨list, hlist, -⟩ :=
            inPosting_of_carries hcarries (hwindows ▸ List.mem_cons_self)
          simp [hnone] at hlist
        next candidates hcandidates =>
          have hmem : ∀ id, Carries toLowercase graph needle id → id ∈ (intersectPostings
              (build toLowercase graph).trigramIndex rest candidates).getD [] :=
            fun _ => mem_intersectPostings_of_carries hwindows hcandidates
          split
          next hnone =>
            refine ⟨List.Pairwise.nil, fun id => ?_⟩
            simp only [List.not_mem_nil, false_iff]
            intro hcarries
            simpa [hnone] using hmem id hcarries
          next result hresult =>
            have hsorted := pairwise_intersectPostings (sorted_of_posting hcandidates) hresult
            refine ⟨hsorted.filter _, fun id => ?_⟩
            rw [List.mem_filter, verify_iff_carries hdistinct, and_iff_right_iff_imp]
            intro hcarries
            simpa [hresult] using hmem id hcarries

/-- The index finds the nodes whose lowercased label contains the lowercased
needle, in ascending order of their ids and each once. The ids are distinct; the needle is
any, one too short for a trigram included, and so is the case mapping. -/
theorem find_spec (toLowercase : String → String) (graph : Graph)
    (hdistinct : (graph.nodes.map Node.id).Nodup) (needle : String) :
    ((build toLowercase graph).find toLowercase needle).Pairwise (· < ·) ∧
      ∀ id, id ∈ (build toLowercase graph).find toLowercase needle ↔
        ∃ node ∈ graph.nodes, node.id = id ∧
          strContains (toLowercase node.label) (toLowercase needle) = true :=
  find_carriers hdistinct needle

end Find

theorem find_spec_parse :
    ⟨7⟩ ∈ (build id { Graph.new with
        nodes := [⟨⟨7⟩, "parser", "a.rs", ⟨0, 1, 1, 1⟩⟩,
          ⟨⟨3⟩, "parse", "a.rs", ⟨0, 1, 2, 2⟩⟩] }).find id "arse" :=
  ((find_spec id { Graph.new with
        nodes := [⟨⟨7⟩, "parser", "a.rs", ⟨0, 1, 1, 1⟩⟩, ⟨⟨3⟩, "parse", "a.rs", ⟨0, 1, 2, 2⟩⟩] }
      (by decide) "arse").2 ⟨7⟩).mpr
    ⟨⟨⟨7⟩, "parser", "a.rs", ⟨0, 1, 1, 1⟩⟩, List.mem_cons_self, rfl, by decide⟩

end LabelIndex

end HabitatGraph
