import Mathlib.Data.Set.Basic

/-! # Linking the outlines of files

A file declares names and states edges, each between two names. Of most edges it is known
which of the two ends the file declares itself. When files are linked, an edge stays that
has both of its ends declared somewhere: one inside a file always stays, and one that
leaves its file stays exactly when its other end is declared in some file.
-/

/-- The names and edges of one file. Nothing is known of the ends of a loose edge. -/
structure Outline (L R : Type*) where
  declares : Set L
  inner : Set (L × L × R)
  incoming : Set (L × L × R)
  outgoing : Set (L × L × R)
  loose : Set (L × L × R)
  inner_closed : ∀ e ∈ inner, e.1 ∈ declares ∧ e.2.1 ∈ declares
  incoming_target : ∀ e ∈ incoming, e.2.1 ∈ declares
  outgoing_source : ∀ e ∈ outgoing, e.1 ∈ declares

namespace Outline

variable {L R : Type*}

/-- All that a file states. -/
def edges (o : Outline L R) : Set (L × L × R) := o.inner ∪ o.incoming ∪ o.outgoing ∪ o.loose

/-- A file of which only the names and edges are known. -/
def ofLoose (names : Set L) (stated : Set (L × L × R)) : Outline L R where
  declares := names
  inner := ∅
  incoming := ∅
  outgoing := ∅
  loose := stated
  inner_closed _ he := he.elim
  incoming_target _ he := he.elim
  outgoing_source _ he := he.elim

@[simp] theorem edges_ofLoose (names : Set L) (stated : Set (L × L × R)) :
    (ofLoose names stated).edges = stated := by
  simp [edges, ofLoose]

section Linking

variable (files : Set (Outline L R))

/-- The names of some files together. -/
def names : Set L := {l | ∃ o ∈ files, l ∈ o.declares}

/-- The edges that linking keeps. -/
def linked : Set (L × L × R) :=
  {e | (∃ o ∈ files, e ∈ o.edges) ∧ e.1 ∈ names files ∧ e.2.1 ∈ names files}

/-- An edge of a file that is kept, by what is known of its ends. -/
inductive Kept (o : Outline L R) (e : L × L × R) : Prop
  | inner (he : e ∈ o.inner)
  | incoming (he : e ∈ o.incoming) (hsource : e.1 ∈ names files)
  | outgoing (he : e ∈ o.outgoing) (htarget : e.2.1 ∈ names files)
  | loose (he : e ∈ o.loose) (hsource : e.1 ∈ names files) (htarget : e.2.1 ∈ names files)

variable {files}

theorem mem_names {o : Outline L R} {l : L} (ho : o ∈ files) (hl : l ∈ o.declares) :
    l ∈ names files := ⟨o, ho, hl⟩

theorem Kept.mem_edges {o : Outline L R} {e : L × L × R} (h : Kept files o e) : e ∈ o.edges := by
  cases h with
  | inner he => exact .inl (.inl (.inl he))
  | incoming he => exact .inl (.inl (.inr he))
  | outgoing he => exact .inl (.inr he)
  | loose he => exact .inr he

theorem Kept.ends {o : Outline L R} {e : L × L × R} (ho : o ∈ files) (h : Kept files o e) :
    e.1 ∈ names files ∧ e.2.1 ∈ names files := by
  cases h with
  | inner he => exact (o.inner_closed e he).imp (mem_names ho) (mem_names ho)
  | incoming he hsource => exact ⟨hsource, mem_names ho (o.incoming_target e he)⟩
  | outgoing he htarget => exact ⟨mem_names ho (o.outgoing_source e he), htarget⟩
  | loose _ hsource htarget => exact ⟨hsource, htarget⟩

theorem mem_linked_iff {e : L × L × R} : e ∈ linked files ↔ ∃ o ∈ files, Kept files o e := by
  constructor
  · intro he
    obtain ⟨⟨o, ho, hstated⟩, hsource, htarget⟩ := he
    refine ⟨o, ho, ?_⟩
    rcases hstated with ((hinner | hincoming) | houtgoing) | hloose
    · exact .inner hinner
    · exact .incoming hincoming hsource
    · exact .outgoing houtgoing htarget
    · exact .loose hloose hsource htarget
  · intro he
    obtain ⟨o, ho, hkept⟩ := he
    exact ⟨⟨o, ho, hkept.mem_edges⟩, hkept.ends ho⟩

/-- A file more takes nothing away. -/
theorem linked_mono {files' : Set (Outline L R)} (hsub : files ⊆ files') :
    linked files ⊆ linked files' := by
  have hnames : names files ⊆ names files' := fun l hl =>
    hl.imp fun o ho => ⟨hsub ho.1, ho.2⟩
  intro e he
  exact ⟨he.1.imp fun o ho => ⟨hsub ho.1, ho.2⟩, hnames he.2.1, hnames he.2.2⟩

end Linking

end Outline
