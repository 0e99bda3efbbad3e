import HabitatGraph.Foundation.LabelledGraph

/-! # Declarations spread over files

Files declare nodes and edges, and over a list of files the first declaration
wins. When some files of the list are replaced, the graph of the new list can be
computed from the graph of the old one without looking at the files that stayed:
declare the fresh files alone, and overlay what the old graph says with kept
data. This yields the graph of the new list exactly when the step is `Faithful`.
-/

namespace Sources

/-! ## The first file that has a key -/

section First

variable {P κ ν : Type*}

/-- The first file that has the key. -/
def owner (files : List P) (entries : P → PartialMap κ ν) (k : κ) : Option P :=
  files.find? fun p => (entries p k).isSome

/-- What the first file that has the key says of it. -/
def firstIn (files : List P) (entries : P → PartialMap κ ν) : PartialMap κ ν :=
  fun k => (owner files entries k).bind fun p => entries p k

variable {files : List P} {entries entries' : P → PartialMap κ ν} {k : κ} {p : P}

theorem owner_cons (p : P) (files : List P) :
    owner (p :: files) entries k =
      if (entries p k).isSome then some p else owner files entries k := by
  unfold owner
  rw [List.find?_cons]
  cases (entries p k).isSome <;> rfl

theorem mem_of_owner (h : owner files entries k = some p) : p ∈ files :=
  List.mem_of_find?_eq_some h

theorem isSome_of_owner (h : owner files entries k = some p) : (entries p k).isSome := by
  simpa using List.find?_some h

theorem owner_isSome_of_mem (hp : p ∈ files) (h : (entries p k).isSome) :
    (owner files entries k).isSome := List.find?_isSome.mpr ⟨p, hp, h⟩

theorem owner_congr (h : ∀ p ∈ files, entries p k = entries' p k) :
    owner files entries k = owner files entries' k := by
  induction files with
  | nil => rfl
  | cons p files ih =>
      rw [owner_cons, owner_cons, h p List.mem_cons_self,
        ih fun q hq => h q (List.mem_cons_of_mem p hq)]

theorem firstIn_congr (h : ∀ p ∈ files, entries p k = entries' p k) :
    firstIn files entries k = firstIn files entries' k := by
  unfold firstIn
  rw [owner_congr h]
  cases howner : owner files entries' k with
  | none => rfl
  | some p => exact h p (mem_of_owner howner)

theorem firstIn_isSome : (firstIn files entries k).isSome = (owner files entries k).isSome := by
  unfold firstIn
  cases howner : owner files entries k with
  | none => rfl
  | some p => simpa using isSome_of_owner howner

theorem firstIn_of_owner (h : owner files entries k = some p) :
    firstIn files entries k = entries p k := by
  rw [firstIn, h, Option.bind_some]

/-- An owner that passes a test owns among the files that pass it. -/
theorem owner_filter {keep : P → Prop} [DecidablePred keep] (hkeep : keep p)
    (h : owner files entries k = some p) :
    owner (files.filter fun q => keep q) entries k = some p := by
  induction files with
  | nil => cases h
  | cons q files ih =>
      rw [owner_cons] at h
      split at h
      next hq =>
        obtain rfl := Option.some.inj h
        rw [List.filter_cons, if_pos (by simpa using hkeep), owner_cons, if_pos hq]
      next hq =>
        -- `q` lacks the key, so it is skipped whether it passes the test or not
        by_cases hkeepq : keep q
        · rw [List.filter_cons, if_pos (by simpa using hkeepq), owner_cons, if_neg hq]
          exact ih h
        · rw [List.filter_cons, if_neg (by simpa using hkeepq)]
          exact ih h

/-- The first element of each key over all files is the first one of the first
file that has the key. -/
theorem firstBy_flatMap {α : Type*} [DecidableEq κ] {key : α → Option κ} {val : α → ν}
    (files : List P) (elements : P → List α) :
    KeyedList.firstBy key val (files.flatMap elements) =
      firstIn files fun p => KeyedList.firstBy key val (elements p) := by
  funext k
  induction files with
  | nil => rfl
  | cons p files ih =>
      rw [List.flatMap_cons, KeyedList.firstBy_append, PartialMap.overlay_apply, ih, firstIn,
        firstIn, owner_cons]
      cases hp : KeyedList.firstBy key val (elements p) k with
      | none => simp
      | some v => simp [hp]

end First

end Sources

/-! ## The graph of a list of files -/

/-- Files in order, each with the nodes and edges it declares. -/
structure Sources (P L D R C : Type*) where
  files : List P
  node : P → PartialMap L D
  edge : P → PartialMap (L × L × R) C

namespace Sources

variable {P L D R C : Type*}

/-- The declared graph: first declarations win, and an edge needs both ends. -/
def graph (s : Sources P L D R C) : LabelledGraph L D R C where
  node := firstIn s.files s.node
  edge k :=
    if (firstIn s.files s.node k.1).isSome ∧ (firstIn s.files s.node k.2.1).isSome then
      firstIn s.files s.edge k
    else none
  closed := by
    intro l l' r h
    split at h
    next hends => exact hends
    next => cases h

theorem graph_edge (s : Sources P L D R C) (k : L × L × R) :
    s.graph.edge k = if s.graph.HasEnds k then firstIn s.files s.edge k else none := rfl

/-- The same declarations over other files. -/
def onFiles (s : Sources P L D R C) (files : List P) : Sources P L D R C :=
  { s with files := files }

/-- The files that pass a test. -/
def only (s : Sources P L D R C) (keep : P → Prop) [DecidablePred keep] : Sources P L D R C :=
  s.onFiles (s.files.filter fun p => keep p)

theorem mem_only_files {s : Sources P L D R C} {keep : P → Prop} [DecidablePred keep] {p : P} :
    p ∈ (s.only keep).files ↔ p ∈ s.files ∧ keep p := by
  simp [only, onFiles]

/-! ## Replacing some of the files -/

section Update

variable (old new : Sources P L D R C) (kept : P → Prop) [DecidablePred kept]

/-- The files that were not kept, declared alone. -/
abbrev fresh : Sources P L D R C := new.only fun p => ¬ kept p

/-- The first file that declared the label before is kept. -/
def KeptOwner (l : L) : Prop := ∃ p, owner old.files old.node l = some p ∧ kept p

/-- When the old graph and the fresh files determine the new graph. -/
structure Faithful : Prop where
  /-- A label that a fresh file declares is declared first by a fresh file. -/
  fresh_owns : ∀ l, (owner (fresh new kept).files new.node l).isSome →
    ∀ p, owner new.files new.node l = some p → ¬ kept p
  /-- A label that only kept files declare was declared first by one of them. -/
  kept_owns : ∀ l, owner (fresh new kept).files new.node l = none →
    (owner new.files new.node l).isSome → KeptOwner old kept l
  /-- An edge that the fresh files declare by themselves is declared so first. -/
  fresh_edges : ∀ k, ((fresh new kept).graph.edge k).isSome →
    firstIn new.files new.edge k = (fresh new kept).graph.edge k
  /-- Any other edge between labels of kept files is declared as before. -/
  kept_edges : ∀ k, (fresh new kept).graph.edge k = none → KeptOwner old kept k.1 →
    KeptOwner old kept k.2.1 → firstIn new.files new.edge k = firstIn old.files old.edge k
  /-- No further edge between declared labels is declared. -/
  other_edges : ∀ k, (fresh new kept).graph.edge k = none → new.graph.HasEnds k →
    ¬ (KeptOwner old kept k.1 ∧ KeptOwner old kept k.2.1) → firstIn new.files new.edge k = none

/-- `kept` files are those common to both lists, with the same declarations; a
declaration names its file; and `keep` tells the declarations of kept files. -/
structure Replaces (keep : L → D → Bool) : Prop where
  filter_eq : old.files.filter (fun p => kept p) = new.files.filter fun p => kept p
  node_eq : ∀ p ∈ new.files, kept p → new.node p = old.node p
  edge_eq : ∀ p ∈ new.files, kept p → new.edge p = old.edge p
  file_eq : ∀ p ∈ new.files, ∀ q ∈ new.files, ∀ l d, new.node p l = some d → new.node q l = some d →
    p = q
  keep_iff : ∀ p ∈ old.files, ∀ l d, old.node p l = some d → (keep l d = true ↔ kept p)

variable {old new kept} {keep : L → D → Bool}

/-- The owner of a label is its owner among the files that pass a test, if it
passes. -/
theorem owner_only {s : Sources P L D R C} {l : L} {p : P} (hkept : kept p)
    (h : owner s.files s.node l = some p) : owner (s.only kept).files s.node l = some p :=
  owner_filter hkept h

theorem hasEnds_of_fresh {k : L × L × R} (hfresh : ((fresh new kept).graph.edge k).isSome) :
    new.graph.HasEnds k := by
  have hends := (fresh new kept).graph.closed hfresh
  have hsome : ∀ l, ((fresh new kept).graph.node l).isSome → (new.graph.node l).isSome := by
    intro l hl
    change (firstIn _ _ l).isSome at hl ⊢
    rw [firstIn_isSome] at hl ⊢
    obtain ⟨f, hf⟩ := Option.isSome_iff_exists.mp hl
    exact owner_isSome_of_mem (mem_only_files.mp (mem_of_owner hf)).1 (isSome_of_owner hf)
  exact ⟨hsome _ hends.1, hsome _ hends.2⟩

namespace Replaces

variable (h : Replaces old new kept keep)
include h

theorem only_files_eq : (old.only kept).files = (new.only kept).files := h.filter_eq

theorem mem_new {p : P} (hp : p ∈ old.files) (hkept : kept p) : p ∈ new.files := by
  have hmem : p ∈ (old.only kept).files := mem_only_files.mpr ⟨hp, hkept⟩
  rw [h.only_files_eq] at hmem
  exact (mem_only_files.mp hmem).1

/-- Restricting by `keep` keeps the labels with a kept owner. -/
theorem keptOwner_iff {l : L} :
    KeptOwner old kept l ↔ ((old.graph.node l).filter (keep l)).isSome := by
  change _ ↔ ((firstIn old.files old.node l).filter (keep l)).isSome
  cases howner : owner old.files old.node l with
  | none => simp [KeptOwner, howner, firstIn]
  | some p =>
      obtain ⟨d, hd⟩ := Option.isSome_iff_exists.mp (isSome_of_owner howner)
      have hkeep := h.keep_iff p (mem_of_owner howner) l d hd
      rw [firstIn_of_owner howner, hd]
      simp [KeptOwner, howner, Option.filter_some, hkeep]

/-- A label with a kept owner is declared in the new files. -/
theorem owner_isSome_of_keptOwner {l : L} (hl : KeptOwner old kept l) :
    (owner new.files new.node l).isSome := by
  obtain ⟨p, howner, hkept⟩ := hl
  have hp := h.mem_new (mem_of_owner howner) hkept
  refine owner_isSome_of_mem hp ?_
  rw [h.node_eq p hp hkept]
  exact isSome_of_owner howner

/-- The kept owner of a label among the old files owns it among the new ones when
no fresh file declares it. -/
theorem owner_eq_of_keptOwner {l : L} {p q : P} (hold : owner old.files old.node l = some q)
    (hkeptq : kept q) (hnew : owner new.files new.node l = some p) (hkeptp : kept p) : p = q := by
  have hq : owner (new.only kept).files old.node l = some q := by
    rw [← h.only_files_eq]
    exact owner_only hkeptq hold
  have hsame : owner (new.only kept).files new.node l = owner (new.only kept).files old.node l := by
    apply owner_congr
    intro r hr
    obtain ⟨hr, hkeptr⟩ := mem_only_files.mp hr
    rw [h.node_eq r hr hkeptr]
  have hp : owner (new.only kept).files new.node l = some p := owner_only hkeptp hnew
  exact Option.some.inj (hp.symm.trans (hsame.trans hq))

/-- What a fresh owner declares is the first declaration exactly when the first
owner is fresh: a location tells its file. -/
theorem firstIn_eq_of_fresh_iff {l : L} {f : P}
    (hfresh : owner (fresh new kept).files new.node l = some f) :
    new.node f l = firstIn new.files new.node l ↔
      ∀ p, owner new.files new.node l = some p → ¬ kept p := by
  obtain ⟨hf, hkeptf⟩ := mem_only_files.mp (mem_of_owner hfresh)
  obtain ⟨d, hd⟩ := Option.isSome_iff_exists.mp (isSome_of_owner hfresh)
  obtain ⟨p, hp⟩ :=
    Option.isSome_iff_exists.mp (owner_isSome_of_mem hf (isSome_of_owner hfresh))
  rw [hd, firstIn_of_owner hp, hp]
  constructor
  · intro heq q hq
    obtain rfl := h.file_eq f hf p (mem_of_owner hp) l d hd heq.symm
    obtain rfl := Option.some.inj hq
    exact hkeptf
  · intro hfirst
    obtain rfl := Option.some.inj (hfresh.symm.trans (owner_only (hfirst p rfl) hp))
    exact hd.symm

/-- A kept first owner declares what the restricted old graph holds exactly when
the label was owned by a kept file. -/
theorem filter_eq_of_kept_iff {l : L} {p : P} (hnew : owner new.files new.node l = some p)
    (hkeptp : kept p) :
    (firstIn old.files old.node l).filter (keep l) = new.node p l ↔ KeptOwner old kept l := by
  constructor
  · intro heq
    apply h.keptOwner_iff.mpr
    change ((firstIn old.files old.node l).filter (keep l)).isSome
    rw [heq]
    exact isSome_of_owner hnew
  · intro ⟨q, hold, hkeptq⟩
    obtain rfl := h.owner_eq_of_keptOwner hold hkeptq hnew hkeptp
    obtain ⟨d, hd⟩ := Option.isSome_iff_exists.mp (isSome_of_owner hold)
    rw [h.node_eq p (mem_of_owner hnew) hkeptp, firstIn_of_owner hold, hd,
      Option.filter_some_pos ((h.keep_iff p (mem_of_owner hold) l d hd).mpr hkeptq)]

/-- The two graphs agree on a label exactly when a fresh owner is the first, or
the first owner was and is a kept file. -/
theorem update_node_eq_iff (l : L) :
    ((fresh new kept).graph.overlay (old.graph.restrict keep)).node l = new.graph.node l ↔
      ((owner (fresh new kept).files new.node l).isSome →
        ∀ p, owner new.files new.node l = some p → ¬ kept p) ∧
      (owner (fresh new kept).files new.node l = none →
        (owner new.files new.node l).isSome → KeptOwner old kept l) := by
  change (firstIn (fresh new kept).files new.node l).or
    ((firstIn old.files old.node l).filter (keep l)) = firstIn new.files new.node l ↔ _
  cases hfresh : owner (fresh new kept).files new.node l with
  | some f =>
      obtain ⟨d, hd⟩ := Option.isSome_iff_exists.mp (isSome_of_owner hfresh)
      rw [firstIn_of_owner hfresh, hd, Option.some_or, ← hd, h.firstIn_eq_of_fresh_iff hfresh]
      simp
  | none =>
      have hnone : firstIn (fresh new kept).files new.node l = none := by rw [firstIn, hfresh]; rfl
      rw [hnone, Option.none_or]
      cases hnew : owner new.files new.node l with
      | none =>
          -- no file declares the label any more, so none of the kept files did
          have hkept : ¬ KeptOwner old kept l := fun hl => by
            have := h.owner_isSome_of_keptOwner hl
            rw [hnew] at this
            cases this
          have hfilter := Option.not_isSome_iff_eq_none.mp (mt h.keptOwner_iff.mpr hkept)
          change (firstIn old.files old.node l).filter (keep l) = none at hfilter
          rw [hfilter, firstIn, hnew]
          exact iff_of_true rfl ⟨nofun, fun _ => nofun⟩
      | some p =>
          -- the first owner is kept, as no fresh file declares the label
          have hkeptp : kept p := by
            by_contra hkeptp
            have howner : owner (fresh new kept).files new.node l = some p :=
              owner_filter hkeptp hnew
            rw [hfresh] at howner
            cases howner
          rw [firstIn_of_owner hnew, h.filter_eq_of_kept_iff hnew hkeptp]
          simp

theorem hasEnds_of_keptOwner {k : L × L × R} (hs : KeptOwner old kept k.1)
    (ht : KeptOwner old kept k.2.1) : new.graph.HasEnds k :=
  ⟨firstIn_isSome.trans (h.owner_isSome_of_keptOwner hs),
    firstIn_isSome.trans (h.owner_isSome_of_keptOwner ht)⟩

/-- Restricting keeps the edges between labels with kept owners. -/
theorem restrict_edge_of_keptOwner {k : L × L × R} (hs : KeptOwner old kept k.1)
    (ht : KeptOwner old kept k.2.1) :
    (old.graph.restrict keep).edge k = firstIn old.files old.edge k := by
  have hold : ∀ l, KeptOwner old kept l → (old.graph.node l).isSome := by
    rintro l ⟨p, howner, -⟩
    change (firstIn old.files old.node l).isSome
    rw [firstIn_isSome, howner]
    rfl
  have hends : old.graph.HasEnds k := ⟨hold _ hs, hold _ ht⟩
  change (if _ ∧ _ then old.graph.edge k else none) = _
  rw [if_pos ⟨h.keptOwner_iff.mp hs, h.keptOwner_iff.mp ht⟩, graph_edge, if_pos hends]

theorem restrict_edge_of_not_keptOwner {k : L × L × R}
    (hkept : ¬ (KeptOwner old kept k.1 ∧ KeptOwner old kept k.2.1)) :
    (old.graph.restrict keep).edge k = none := by
  refine if_neg fun hends => hkept ?_
  exact ⟨h.keptOwner_iff.mpr hends.1, h.keptOwner_iff.mpr hends.2⟩

/-- The two graphs agree on an edge exactly when the assertion that counts is the
one that the update takes. -/
theorem update_edge_eq_iff (k : L × L × R) :
    ((fresh new kept).graph.overlay (old.graph.restrict keep)).edge k = new.graph.edge k ↔
      (((fresh new kept).graph.edge k).isSome →
        firstIn new.files new.edge k = (fresh new kept).graph.edge k) ∧
      ((fresh new kept).graph.edge k = none → KeptOwner old kept k.1 → KeptOwner old kept k.2.1 →
        firstIn new.files new.edge k = firstIn old.files old.edge k) ∧
      ((fresh new kept).graph.edge k = none → new.graph.HasEnds k →
        ¬ (KeptOwner old kept k.1 ∧ KeptOwner old kept k.2.1) →
          firstIn new.files new.edge k = none) := by
  change ((fresh new kept).graph.edge k).or ((old.graph.restrict keep).edge k) =
    new.graph.edge k ↔ _
  cases hfresh : (fresh new kept).graph.edge k with
  | some c =>
      have hends := hasEnds_of_fresh (by rw [hfresh]; rfl)
      rw [Option.some_or, graph_edge, if_pos hends]
      exact ⟨fun heq => ⟨fun _ => heq.symm, nofun, nofun⟩, fun hc => (hc.1 rfl).symm⟩
  | none =>
      -- the old edge counts when both its ends come from kept files
      rw [Option.none_or]
      by_cases hkept : KeptOwner old kept k.1 ∧ KeptOwner old kept k.2.1
      · rw [h.restrict_edge_of_keptOwner hkept.1 hkept.2, graph_edge,
          if_pos (h.hasEnds_of_keptOwner hkept.1 hkept.2)]
        constructor
        · intro heq
          exact ⟨nofun, fun _ _ _ => heq.symm, fun _ _ hnot => absurd hkept hnot⟩
        · rintro ⟨-, heq, -⟩
          exact (heq rfl hkept.1 hkept.2).symm
      · rw [h.restrict_edge_of_not_keptOwner hkept, graph_edge]
        constructor
        · intro heq
          refine ⟨nofun, fun _ hs ht => absurd ⟨hs, ht⟩ hkept, fun _ hends _ => ?_⟩
          rw [heq, if_pos hends]
        · rintro ⟨-, -, hnone⟩
          split
          next hends => exact (hnone rfl hends hkept).symm
          next => rfl

/-- The update yields the graph of the new files exactly when the step is
faithful. -/
theorem update_eq_iff :
    (fresh new kept).graph.overlay (old.graph.restrict keep) = new.graph ↔
      Faithful old new kept := by
  constructor
  · intro heq
    have hnode := fun l => (h.update_node_eq_iff l).mp (by rw [heq])
    have hedge := fun k => (h.update_edge_eq_iff k).mp (by rw [heq])
    exact ⟨fun l => (hnode l).1, fun l => (hnode l).2, fun k => (hedge k).1,
      fun k => (hedge k).2.1, fun k => (hedge k).2.2⟩
  · intro hfaithful
    apply LabelledGraph.eq_of_maps
    · funext l
      exact (h.update_node_eq_iff l).mpr ⟨hfaithful.fresh_owns l, hfaithful.kept_owns l⟩
    · funext k
      exact (h.update_edge_eq_iff k).mpr
        ⟨hfaithful.fresh_edges k, hfaithful.kept_edges k, hfaithful.other_edges k⟩

section AllKept

variable (hold : ∀ p ∈ old.files, kept p) (hnew : ∀ p ∈ new.files, kept p)
include hold hnew

theorem files_eq_of_forall_kept : new.files = old.files := by
  have hfilter := h.filter_eq
  rw [List.filter_eq_self.mpr fun p hp => decide_eq_true (hold p hp),
    List.filter_eq_self.mpr fun p hp => decide_eq_true (hnew p hp)] at hfilter
  exact hfilter.symm

theorem owner_node_of_forall_kept (l : L) :
    owner new.files new.node l = owner old.files old.node l := by
  rw [← h.files_eq_of_forall_kept hold hnew]
  exact owner_congr fun p hp => by rw [h.node_eq p hp (hnew p hp)]

theorem firstIn_node_of_forall_kept (l : L) :
    firstIn new.files new.node l = firstIn old.files old.node l := by
  rw [← h.files_eq_of_forall_kept hold hnew]
  exact firstIn_congr fun p hp => by rw [h.node_eq p hp (hnew p hp)]

theorem firstIn_edge_of_forall_kept (k : L × L × R) :
    firstIn new.files new.edge k = firstIn old.files old.edge k := by
  rw [← h.files_eq_of_forall_kept hold hnew]
  exact firstIn_congr fun p hp => by rw [h.edge_eq p hp (hnew p hp)]

/-- Keeping every file keeps the graph. -/
theorem graph_eq_of_forall_kept : new.graph = old.graph := by
  apply LabelledGraph.eq_of_maps
  · funext l
    exact h.firstIn_node_of_forall_kept hold hnew l
  · funext k
    have hnode := h.firstIn_node_of_forall_kept hold hnew
    refine if_congr ?_ (h.firstIn_edge_of_forall_kept hold hnew k) rfl
    rw [hnode, hnode]

/-- Keeping every file is a faithful step. -/
theorem faithful_of_forall_kept : Faithful old new kept := by
  have hfresh : (fresh new kept).files = [] := by
    apply List.filter_eq_nil_iff.mpr
    intro p hp
    simpa using hnew p hp
  have hkept : ∀ l, (owner new.files new.node l).isSome → KeptOwner old kept l := by
    intro l hl
    obtain ⟨p, hp⟩ := Option.isSome_iff_exists.mp hl
    rw [h.owner_node_of_forall_kept hold hnew] at hp
    exact ⟨p, hp, hold p (mem_of_owner hp)⟩
  have hnone : ∀ k, (fresh new kept).graph.edge k = none := fun k => by
    simp [graph_edge, firstIn, owner, hfresh]
  constructor
  · intro l hl
    rw [hfresh] at hl
    cases hl
  · intro l _ hl
    exact hkept l hl
  · intro k hk
    rw [hnone] at hk
    cases hk
  · intro k _ _ _
    exact h.firstIn_edge_of_forall_kept hold hnew k
  · intro k _ hends hnot
    have hs : (owner new.files new.node k.1).isSome := firstIn_isSome.symm.trans hends.1
    have ht : (owner new.files new.node k.2.1).isSome := firstIn_isSome.symm.trans hends.2
    exact absurd ⟨hkept _ hs, hkept _ ht⟩ hnot

end AllKept

end Replaces

end Update

end Sources
