import HabitatGraph.Serve.Mcp

/-! # The totals of a query

The answer to `graph_query` says in its first line how many nodes match. What it
lists is capped by a number of lines, and by a budget when the caller gives one, and
each of the two writes its own note about what it leaves out. The totals are read
off the template of the answer, which no label and no file name can imitate.
-/

namespace HabitatGraph

open Template

/-- The number a text of decimal digits stands for. -/
def decimal (s : String) : Nat := Nat.ofDigitChars 10 s.toList 0

@[simp] theorem decimal_toString (n : Nat) : decimal (toString n) = n := by
  have htext : (toString n).toList = Nat.toDigits 10 n := Nat.toList_repr
  rw [decimal, htext, Nat.ofDigitChars_toDigits (by decide) (by decide)]

/-- The number of matches in the first line. -/
def statedTotal : Text → Option Nat
  | .argument total :: .literal " node(s) match " :: _ => some (decimal total)
  | _ => none

/-- The lines of matches. -/
def matchLines (text : Text) : Nat := text.count (.literal "  - ")

/-- A note about matches that are not listed begins here. -/
def opensNote (piece : Piece) : Bool := piece == .literal "  … " || piece == .literal "… "

def pieceNumber : Piece → Nat
  | .literal _ => 0
  | .argument s => decimal s

/-- The number in the note, zero when there is none. -/
def announced : Text → Nat
  | [] => 0
  | piece :: text => if opensNote piece then text.head?.elim 0 pieceNumber else announced text

/-- The lines and the number in the note add up to the number in the first line. -/
def Accounts (text : Text) : Prop :=
  ∀ total, statedTotal text = some total → matchLines text + announced text = total

/-- A reply that is a text accounts for every match. -/
def Response.Accounts (response : Response) : Prop :=
  ∀ text, response.outcome = .ok text → HabitatGraph.Accounts text

theorem matchLines_append (text text' : Text) :
    matchLines (text ++ text') = matchLines text + matchLines text' := List.count_append

theorem announced_append {text text' : Text}
    (hnote : ∀ piece ∈ text, opensNote piece = false) :
    announced (text ++ text') = announced text' := by
  induction text with
  | nil => rfl
  | cons piece text ih =>
      rw [List.forall_mem_cons] at hnote
      rw [List.cons_append, announced, hnote.1, if_neg Bool.false_ne_true, ih hnote.2]

/-! ## The parts of an answer -/

variable (tables : UnicodeTables)

@[simp] theorem matchLines_queryHeader (total : Nat) (needle : String) :
    matchLines (queryHeader tables total needle) = 0 := by
  simp [matchLines, queryHeader]

@[simp] theorem matchLines_queryLine (node : Node) : matchLines (queryLine node) = 1 := by
  simp [matchLines, queryLine]

theorem matchLines_queryLines (nodes : List Node) :
    matchLines (nodes.map queryLine).flatten = nodes.length := by
  induction nodes with
  | nil => rfl
  | cons node nodes ih =>
      rw [List.map_cons, List.flatten_cons, matchLines_append, ih, matchLines_queryLine,
        List.length_cons, Nat.add_comm]

theorem opensNote_queryLine (node : Node) :
    ∀ piece ∈ queryLine node, opensNote piece = false := by
  simp [queryLine, opensNote]

theorem opensNote_queryHeader (total : Nat) (needle : String) :
    ∀ piece ∈ queryHeader tables total needle, opensNote piece = false := by
  simp [queryHeader, opensNote]

/-- An answer without its note: the header and the lines of some matches. -/
def listing (total : Nat) (needle : String) (nodes : List Node) : Text :=
  queryHeader tables total needle ++ (nodes.map queryLine).flatten

theorem statedTotal_listing (total : Nat) (needle : String) (nodes : List Node) (note : Text) :
    statedTotal (listing tables total needle nodes ++ note) = some total := by
  simp [listing, queryHeader, statedTotal, -Nat.toString_eq_repr]

theorem matchLines_listing (total : Nat) (needle : String) (nodes : List Node) (note : Text) :
    matchLines (listing tables total needle nodes ++ note) = nodes.length + matchLines note := by
  rw [matchLines_append, listing, matchLines_append, matchLines_queryHeader,
    matchLines_queryLines, Nat.zero_add]

theorem announced_listing (total : Nat) (needle : String) (nodes : List Node) (note : Text) :
    announced (listing tables total needle nodes ++ note) = announced note := by
  apply announced_append
  intro piece hpiece
  rw [listing, List.mem_append] at hpiece
  cases hpiece with
  | inl hheader => exact opensNote_queryHeader tables total needle piece hheader
  | inr hlines =>
      rw [List.mem_flatten] at hlines
      obtain ⟨line, hline, hpiece⟩ := hlines
      rw [List.mem_map] at hline
      obtain ⟨node, _, rfl⟩ := hline
      exact opensNote_queryLine node piece hpiece

/-- An answer accounts for the matches when the lines and the note do. -/
theorem accounts_listing_iff (total : Nat) (needle : String) (nodes : List Node) (note : Text) :
    Accounts (listing tables total needle nodes ++ note) ↔
      nodes.length + matchLines note + announced note = total := by
  simp [Accounts, statedTotal_listing, matchLines_listing, announced_listing]

theorem totals_moreNote (total : Nat) :
    matchLines (moreNote total) = 0 ∧ announced (moreNote total) = total - maxQueryResults := by
  simp [matchLines, moreNote, announced, opensNote, pieceNumber, -Nat.toString_eq_repr]

theorem totals_omittedNote (dropped maxTokens : Nat) :
    matchLines (omittedNote dropped maxTokens) = 0 ∧
      announced (omittedNote dropped maxTokens) = dropped := by
  simp [matchLines, omittedNote, announced, opensNote, pieceNumber, -Nat.toString_eq_repr]

/-- What is packed of the lines is a listing of the first of them. -/
theorem pack_queryLines (total : Nat) (needle : String) (nodes : List Node) (maxTokens : Nat) :
    ∃ shown ≤ nodes.length,
      pack (queryHeader tables total needle) (nodes.map queryLine).head?
          (nodes.map queryLine).tail maxTokens =
        listing tables total needle (nodes.take shown) ++
          if shown < nodes.length then omittedNote (nodes.length - shown) maxTokens else [] := by
  cases nodes with
  | nil => exact ⟨0, Nat.le_refl 0, by simp [pack_eq, listing]⟩
  | cons node nodes =>
      let k := taken (queryHeader tables total needle) (some (queryLine node))
        (nodes.map queryLine) maxTokens
      have hk : k ≤ nodes.length := by
        have := taken_le_length (queryHeader tables total needle) (some (queryLine node))
          (nodes.map queryLine) maxTokens
        rwa [List.length_map] at this
      refine ⟨k + 1, Nat.succ_le_succ hk, ?_⟩
      rw [List.map_cons, List.head?_cons, List.tail_cons, pack_eq]
      simp [listing, k]

section Condition

variable (toLowercase : String → String) (graph : Graph)

/-- No budget is given, or no more nodes match than are listed. -/
def QueryCounted (args : JsonValue) : Prop :=
  ∀ needle, (args.get "query").bind JsonValue.asStr = some needle →
    needle.utf8ByteSize ≤ maxQueryLen →
      (args.get "max_tokens").bind JsonValue.asU64 = none ∨
        (findByLabel toLowercase graph needle).length ≤ maxQueryResults

theorem accounts_errorResponse (id : JsonValue) (code : Int) (message : String) :
    (errorResponse id code message).Accounts := by
  simp [Response.Accounts, errorResponse]

theorem accounts_toolTextResult_iff {id : JsonValue} {text : Text} :
    (toolTextResult id text).Accounts ↔ Accounts text := by
  simp [Response.Accounts, toolTextResult]

/-- Without a budget the lines and the note are all there are. -/
theorem accounts_moreNote (needle : String) (found : List Node) :
    Accounts (listing tables found.length needle (found.take maxQueryResults) ++
      if found.length > maxQueryResults then moreNote found.length else []) := by
  rw [accounts_listing_iff, List.length_take]
  split
  next hmore =>
    have htotals := totals_moreNote found.length
    omega
  next hall =>
    simp only [matchLines, announced, List.count_nil]
    omega

/-- With a budget they are all there are of the lines that were packed. -/
theorem accounts_pack_iff (needle : String) (found : List Node) (maxTokens : Nat) :
    Accounts (pack (queryHeader tables found.length needle)
        ((found.take maxQueryResults).map queryLine).head?
        ((found.take maxQueryResults).map queryLine).tail maxTokens) ↔
      found.length ≤ maxQueryResults := by
  obtain ⟨shown, hshown, hpack⟩ := pack_queryLines tables found.length needle
    (found.take maxQueryResults) maxTokens
  rw [List.length_take] at hshown hpack
  rw [hpack, accounts_listing_iff, List.length_take, List.length_take]
  split
  next hdropped =>
    have htotals := totals_omittedNote (min maxQueryResults found.length - shown) maxTokens
    omega
  next hall =>
    simp only [matchLines, announced, List.count_nil]
    omega

/-- A query accounts for every match exactly when no budget is given or no more
nodes match than are listed. The graph and the arguments are arbitrary; a match is
accounted for by its line or by a note that counts it. -/
theorem toolQuery_accounts_iff (id args : JsonValue) :
    (toolQuery toLowercase tables graph id args).Accounts ↔
      QueryCounted toLowercase graph args := by
  unfold toolQuery QueryCounted
  cases hneedle : (args.get "query").bind JsonValue.asStr with
  | none => simp [accounts_errorResponse]
  | some needle =>
      simp only [Option.some.injEq, forall_eq']
      split
      next hlong => simp [accounts_errorResponse, Nat.not_le.mpr hlong]
      next hshort =>
        rw [not_lt] at hshort
        split
        next hempty =>
          rw [List.isEmpty_iff] at hempty
          simp [accounts_toolTextResult_iff, Accounts, statedTotal, hempty]
        next hfound =>
          simp only [hshort, forall_const]
          cases (args.get "max_tokens").bind JsonValue.asU64 with
          | none =>
              simp only [accounts_toolTextResult_iff, true_or, iff_true]
              exact accounts_moreNote tables needle _
          | some budget =>
              simp only [accounts_toolTextResult_iff, reduceCtorEq, false_or]
              exact accounts_pack_iff tables needle _ budget

end Condition

/-- A source of `count` functions. -/
def manyNodes (count : Nat) : Graph := { Graph.new with
  nodes := (List.range count).map fun k => ⟨⟨UInt32.ofNat k⟩, "f", "a.rs", ⟨0, 10, 1, 2⟩⟩ }

/-- A query with a budget. -/
def budgetedQuery (needle : String) (maxTokens : Nat) : JsonValue :=
  .object [("query", .string needle), ("max_tokens", .number (.integer maxTokens))]

/-- Of 51 matches 50 are listed within a generous budget, and no note tells of the
last one. -/
theorem toolQuery_loses_match :
    (∃ text, toolQuery id asciiTables (manyNodes 51) .null (budgetedQuery "f" 10000) =
        toolTextResult .null text ∧
      statedTotal text = some 51 ∧ matchLines text = 50 ∧ announced text = 0) ∧
    ¬ ∀ graph args, (toolQuery id asciiTables graph .null args).Accounts := by
  have hfound : findByLabel id (manyNodes 51) "f" = (manyNodes 51).nodes := by decide +kernel
  have hneedle : ((budgetedQuery "f" 10000).get "query").bind JsonValue.asStr = some "f" := by
    decide +kernel
  have hbudget : ((budgetedQuery "f" 10000).get "max_tokens").bind JsonValue.asU64 =
      some 10000 := by decide +kernel
  have hreply : toolQuery id asciiTables (manyNodes 51) .null (budgetedQuery "f" 10000) =
      toolTextResult .null (pack (queryHeader asciiTables (manyNodes 51).nodes.length "f")
        (((manyNodes 51).nodes.take maxQueryResults).map queryLine).head?
        (((manyNodes 51).nodes.take maxQueryResults).map queryLine).tail 10000) := by
    simp only [toolQuery, hneedle, hbudget, hfound]
    rfl
  refine ⟨⟨_, hreply, ?_⟩, ?_⟩
  · decide +kernel
  · intro h
    have hcounts := h (manyNodes 51) (budgetedQuery "f" 10000)
    rw [hreply, accounts_toolTextResult_iff, accounts_pack_iff] at hcounts
    exact absurd hcounts (by decide)

end HabitatGraph
