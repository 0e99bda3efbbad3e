import HabitatGraph.Core.Schema
import HabitatGraph.Foundation.CypherLexer
import HabitatGraph.Foundation.DelimitedChunks
import HabitatGraph.Foundation.Template

/-! # Cypher export

A script of one statement for every node and every edge, below a comment with their
numbers. All strings of the graph are escaped into literals, so that the statements are
those of the template whatever the strings are.
-/

namespace HabitatGraph

open Cypher DelimitedChunks Template

/-- The escape of a character in a single-quoted literal. -/
def cypherEscapeChar (ch : Char) : List Char :=
  match ch with
  | '\\' => ['\\', '\\']
  | '\'' => ['\\', '\'']
  | '\n' => ['\\', 'n']
  | '\r' => ['\\', 'r']
  | '\t' => ['\\', 't']
  | c => if c.toNat < 0x20 then [] else [c]

/-- Escape a string for a single-quoted literal. -/
def cypherEscape (input : String) : String := String.ofList (input.toList.flatMap cypherEscapeChar)

/-- The first line, without its line feed. -/
def cypherHeader (graph : Graph) : Text :=
  [.literal "// habitat-graph cypher export — ", .argument (toString graph.nodes.length),
    .literal " nodes, ", .argument (toString graph.edges.length), .literal " edges"]

/-- The line of a node. -/
def cypherNode (node : Node) : Text :=
  let id := toString node.id.get.toNat
  [.literal "MERGE (n", .argument id, .literal ":Symbol \x7bid: ", .argument id,
    .literal ", label: '", .argument (cypherEscape node.label), .literal "', source_file: '",
    .argument (cypherEscape node.sourceFile), .literal "', line: ",
    .argument (toString node.sourceLocation.startLine.toNat), .literal "\x7d);\n"]

/-- The line of an edge. -/
def cypherEdge (edge : Edge) : Text :=
  [.literal "MATCH (a \x7bid: ", .argument (toString edge.source.get.toNat),
    .literal "\x7d),(b \x7bid: ", .argument (toString edge.target.get.toNat),
    .literal "\x7d) MERGE (a)-[:REL \x7brelation: '", .argument (cypherEscape edge.relation),
    .literal "', confidence: '", .argument (cypherEscape edge.confidence.asStr),
    .literal "'\x7d]->(b);\n"]

/-- The script. -/
def renderCypher (graph : Graph) : String :=
  render (cypherHeader graph ++ [.literal "\n"] ++ graph.nodes.flatMap cypherNode ++
    graph.edges.flatMap cypherEdge)

/-! ## What the literals decode to -/

/-- A control character that a literal cannot hold. -/
def isDropped (ch : Char) : Bool :=
  ch.toNat < 0x20 && ch ≠ '\t' && ch ≠ '\n' && ch ≠ '\r'

/-- A string without such characters. -/
def withoutControls (s : String) : List Char := s.toList.filter fun ch => !isDropped ch

/-- An escaped character is read as the character itself, inside the literal. -/
theorem lexes_cypherEscapeChar (ch : Char) (value : List Char) :
    Lexes (.literal value) (cypherEscapeChar ch) []
      (.literal (value ++ [ch].filter fun ch => !isDropped ch)) := by
  unfold cypherEscapeChar
  split
  next => rfl
  next => rfl
  next => rfl
  next => rfl
  next => rfl
  next hbackslash hquote hnewline hreturn htab =>
    split
    next hcontrol =>
      have hdropped : isDropped ch = true := by
        simp only [isDropped, Bool.and_eq_true, decide_eq_true_eq, ne_eq]
        exact ⟨⟨⟨hcontrol, htab⟩, hnewline⟩, hreturn⟩
      rw [List.filter_cons_of_neg (by simp [hdropped]), List.filter_nil, List.append_nil]
      exact Lexes.nil _
    next hcontrol =>
      have hdropped : isDropped ch = false := by simp [isDropped, hcontrol]
      have hstep : step (.literal value) ch = some ([], .literal (value ++ [ch])) := by
        rw [step, if_neg (by simpa using hquote), if_neg (by simpa using hbackslash)]
      rw [List.filter_cons_of_pos (by simp [hdropped]), List.filter_nil]
      exact Lexes.cons hstep (Lexes.nil _)

/-- An escaped string is read as the string itself, inside its literal. -/
theorem lexes_cypherEscape (s : String) (value : List Char) :
    Lexes (.literal value) (cypherEscape s).toList [] (.literal (value ++ withoutControls s)) := by
  rw [cypherEscape, String.toList_ofList, withoutControls]
  induction s.toList generalizing value with
  | nil =>
      rw [List.filter_nil, List.append_nil]
      exact Lexes.nil _
  | cons ch chars ih =>
      have hfilter : value ++ (ch :: chars).filter (fun ch => !isDropped ch) =
          (value ++ [ch].filter fun ch => !isDropped ch) ++
            chars.filter fun ch => !isDropped ch := by
        rw [List.append_assoc, ← List.filter_append, List.singleton_append]
      rw [List.flatMap_cons, hfilter]
      exact (lexes_cypherEscapeChar ch value).append (ih _)

/-! ## The statements -/

def number (n : UInt32) : List Char := (toString n.toNat).toList

/-- The tokens of a `MERGE` statement, without the semicolon. -/
def nodeStatement (node : Node) : List Token :=
  [.word "MERGE".toList, .symbol '(', .word ('n' :: number node.id.get), .symbol ':',
    .word "Symbol".toList, .symbol '\x7b',
    .word "id".toList, .symbol ':', .word (number node.id.get), .symbol ',',
    .word "label".toList, .symbol ':', .literal (withoutControls node.label), .symbol ',',
    .word "source_file".toList, .symbol ':', .literal (withoutControls node.sourceFile),
    .symbol ',', .word "line".toList, .symbol ':',
    .word (number node.sourceLocation.startLine), .symbol '\x7d', .symbol ')']

/-- The tokens of a `MATCH` and `MERGE` statement, without the semicolon. -/
def edgeStatement (edge : Edge) : List Token :=
  [.word "MATCH".toList, .symbol '(', .word "a".toList, .symbol '\x7b', .word "id".toList,
    .symbol ':', .word (number edge.source.get), .symbol '\x7d', .symbol ')', .symbol ',',
    .symbol '(', .word "b".toList, .symbol '\x7b', .word "id".toList, .symbol ':',
    .word (number edge.target.get), .symbol '\x7d', .symbol ')',
    .word "MERGE".toList, .symbol '(', .word "a".toList, .symbol ')', .symbol '-', .symbol '[',
    .symbol ':', .word "REL".toList, .symbol '\x7b', .word "relation".toList, .symbol ':',
    .literal (withoutControls edge.relation), .symbol ',', .word "confidence".toList, .symbol ':',
    .literal (withoutControls edge.confidence.asStr), .symbol '\x7d', .symbol ']', .symbol '-',
    .symbol '>', .symbol '(', .word "b".toList, .symbol ')']

theorem isDigit_of_mem_number {n : UInt32} {ch : Char} (hch : ch ∈ number n) : ch.isDigit := by
  have hdigits : number n = Nat.toDigits 10 n.toNat := Nat.toList_repr
  rw [hdigits] at hch
  exact Nat.isDigit_of_mem_toDigits (by decide) (by decide) hch

theorem isWordChar_of_isDigit {ch : Char} (h : ch.isDigit) : isWordChar ch := by
  simp [isWordChar, Char.isAlphanum, h]

/-- A digit between tokens begins a word. -/
theorem plainStep_of_isDigit {ch : Char} (h : ch.isDigit) : plainStep ch = ([], .word [ch]) := by
  have hne : ∀ other : Char, other.isDigit = false → (ch == other) = false := by
    intro other hother
    rw [beq_eq_false_iff_ne]
    intro heq
    rw [heq, hother] at h
    cases h
  simp [plainStep, isBlank, hne '\'' rfl, hne '/' rfl, hne ' ' rfl, hne '\n' rfl, hne '\t' rfl,
    hne '\r' rfl, isWordChar_of_isDigit h]

theorem lexes_number (n : UInt32) (text : List Char) :
    Lexes (.word text) (number n) [] (.word (text ++ number n)) :=
  lexes_word (fun _ hch => isWordChar_of_isDigit (isDigit_of_mem_number hch)) text

theorem lexes_plain_number (n : UInt32) : Lexes .plain (number n) [] (.word (number n)) := by
  have hdigits : number n = Nat.toDigits 10 n.toNat := Nat.toList_repr
  cases hnumber : number n with
  | nil => exact absurd (hdigits.symm.trans hnumber) Nat.toDigits_ne_nil
  | cons ch chars =>
      have hchars : ∀ other ∈ ch :: chars, other.isDigit :=
        fun other hother => isDigit_of_mem_number (hnumber ▸ hother)
      rw [List.forall_mem_cons] at hchars
      have hword := lexes_word (fun other hother => isWordChar_of_isDigit (hchars.2 other hother))
        [ch]
      have hstep : step .plain ch = some ([], .word [ch]) :=
        congrArg some (plainStep_of_isDigit hchars.1)
      exact Lexes.cons hstep hword

/-- The line of a node is its statement. -/
theorem lexes_cypherNode (node : Node) :
    Lexes .plain ((cypherNode node).flatMap Piece.chars) (nodeStatement node ++ [.symbol ';'])
      .plain := by
  have hmerge : Lexes .plain "MERGE (n".toList [.word "MERGE".toList, .symbol '('] (.word ['n']) :=
    rfl
  have hsymbol : ∀ w, Lexes (.word w) ":Symbol \x7bid: ".toList
      [.word w, .symbol ':', .word "Symbol".toList, .symbol '\x7b', .word "id".toList, .symbol ':']
      .plain := fun _ => rfl
  have hlabel : ∀ w, Lexes (.word w) ", label: '".toList
      [.word w, .symbol ',', .word "label".toList, .symbol ':'] (.literal []) := fun _ => rfl
  have hfile : ∀ v, Lexes (.literal v) "', source_file: '".toList
      [.literal v, .symbol ',', .word "source_file".toList, .symbol ':'] (.literal []) :=
    fun _ => rfl
  have hline : ∀ v, Lexes (.literal v) "', line: ".toList
      [.literal v, .symbol ',', .word "line".toList, .symbol ':'] .plain := fun _ => rfl
  have hend : ∀ w, Lexes (.word w) "\x7d);\n".toList
      [.word w, .symbol '\x7d', .symbol ')', .symbol ';'] .plain := fun _ => rfl
  exact hmerge.append <| (lexes_number node.id.get ['n']).append <| (hsymbol _).append <|
    (lexes_plain_number node.id.get).append <| (hlabel _).append <|
    (lexes_cypherEscape node.label []).append <| (hfile _).append <|
    (lexes_cypherEscape node.sourceFile []).append <| (hline _).append <|
    (lexes_plain_number node.sourceLocation.startLine).append <| (hend _).append (Lexes.nil _)

/-- The line of an edge is its statement. -/
theorem lexes_cypherEdge (edge : Edge) :
    Lexes .plain ((cypherEdge edge).flatMap Piece.chars) (edgeStatement edge ++ [.symbol ';'])
      .plain := by
  have hsource : Lexes .plain "MATCH (a \x7bid: ".toList
      [.word "MATCH".toList, .symbol '(', .word "a".toList, .symbol '\x7b', .word "id".toList,
        .symbol ':'] .plain := rfl
  have htarget : ∀ w, Lexes (.word w) "\x7d),(b \x7bid: ".toList
      [.word w, .symbol '\x7d', .symbol ')', .symbol ',', .symbol '(', .word "b".toList,
        .symbol '\x7b', .word "id".toList, .symbol ':'] .plain := fun _ => rfl
  have hrelation : ∀ w, Lexes (.word w) "\x7d) MERGE (a)-[:REL \x7brelation: '".toList
      [.word w, .symbol '\x7d', .symbol ')', .word "MERGE".toList, .symbol '(', .word "a".toList,
        .symbol ')', .symbol '-', .symbol '[', .symbol ':', .word "REL".toList, .symbol '\x7b',
        .word "relation".toList, .symbol ':'] (.literal []) := fun _ => rfl
  have hconfidence : ∀ v, Lexes (.literal v) "', confidence: '".toList
      [.literal v, .symbol ',', .word "confidence".toList, .symbol ':'] (.literal []) :=
    fun _ => rfl
  have hend : ∀ v, Lexes (.literal v) "'\x7d]->(b);\n".toList
      [.literal v, .symbol '\x7d', .symbol ']', .symbol '-', .symbol '>', .symbol '(',
        .word "b".toList, .symbol ')', .symbol ';'] .plain := fun _ => rfl
  exact hsource.append <| (lexes_plain_number edge.source.get).append <| (htarget _).append <|
    (lexes_plain_number edge.target.get).append <| (hrelation _).append <|
    (lexes_cypherEscape edge.relation []).append <| (hconfidence _).append <|
    (lexes_cypherEscape edge.confidence.asStr []).append <| (hend _).append (Lexes.nil _)

/-- The text of the comment. -/
def commentText (graph : Graph) : List Char :=
  " habitat-graph cypher export — ".toList ++ (toString graph.nodes.length).toList ++
    " nodes, ".toList ++ (toString graph.edges.length).toList ++ " edges".toList

theorem notMem_commentText (graph : Graph) : '\n' ∉ commentText graph := by
  have hdigits : ∀ n : Nat, '\n' ∉ (toString n).toList := by
    intro n hmem
    have hchars : (toString n).toList = Nat.toDigits 10 n := Nat.toList_repr
    rw [hchars] at hmem
    exact absurd (Nat.isDigit_of_mem_toDigits (by decide) (by decide) hmem) (by decide)
  have hstart : '\n' ∉ " habitat-graph cypher export — ".toList := by decide +kernel
  have hnodes : '\n' ∉ " nodes, ".toList := by decide +kernel
  have hedges : '\n' ∉ " edges".toList := by decide +kernel
  unfold commentText
  simp only [List.mem_append, not_or]
  exact ⟨⟨⟨⟨hstart, hdigits _⟩, hnodes⟩, hdigits _⟩, hedges⟩

theorem chars_cypherHeader (graph : Graph) :
    (cypherHeader graph ++ [Piece.literal "\n"]).flatMap Piece.chars =
      "//".toList ++ (commentText graph ++ ['\n']) := by
  have hstart : "// habitat-graph cypher export — ".toList =
      "//".toList ++ " habitat-graph cypher export — ".toList := by decide +kernel
  unfold cypherHeader commentText
  simp only [List.flatMap_append, List.flatMap_cons, List.flatMap_nil, Piece.chars, hstart,
    List.append_assoc, List.append_nil]
  rfl

/-- The first line is a comment. -/
theorem lexes_cypherHeader (graph : Graph) :
    Lexes .plain ((cypherHeader graph ++ [Piece.literal "\n"]).flatMap Piece.chars)
      [.comment (commentText graph)] .plain := by
  have hopen : Lexes .plain "//".toList [] (.comment []) := rfl
  have hend : Lexes (.comment (commentText graph)) ['\n'] [.comment (commentText graph)] .plain :=
    rfl
  rw [chars_cypherHeader]
  exact hopen.append ((lexes_comment (notMem_commentText graph) []).append hend)

/-- The tokens of the script: the comment, and the statements with a semicolon after
each. -/
def scriptStatements (graph : Graph) : List (List Token) :=
  graph.nodes.map nodeStatement ++ graph.edges.map edgeStatement

/-- No statement holds a semicolon outside its literals. -/
theorem notMem_scriptStatements (graph : Graph) :
    ∀ statement ∈ scriptStatements graph, Token.symbol ';' ∉ statement := by
  intro statement hstatement
  rcases List.mem_append.mp hstatement with hnode | hedge
  · obtain ⟨node, _, rfl⟩ := List.mem_map.mp hnode
    simp +decide only [nodeStatement, List.mem_cons, reduceCtorEq, or_self,
      not_false_eq_true]
  · obtain ⟨edge, _, rfl⟩ := List.mem_map.mp hedge
    simp +decide only [edgeStatement, List.mem_cons, reduceCtorEq, or_self,
      not_false_eq_true]

theorem lexes_scriptStatements (graph : Graph) :
    Lexes .plain (renderCypher graph).toList
      (.comment (commentText graph) :: frames (.symbol ';') (scriptStatements graph)) .plain := by
  have hnodes := lexes_flatten lexes_cypherNode graph.nodes
  have hedges := lexes_flatten lexes_cypherEdge graph.edges
  have hframes : frames (.symbol ';') (scriptStatements graph) =
      (graph.nodes.flatMap fun node => nodeStatement node ++ [.symbol ';']) ++
        graph.edges.flatMap fun edge => edgeStatement edge ++ [.symbol ';'] := by
    rw [frames, scriptStatements, List.flatMap_append, List.flatMap_map, List.flatMap_map]
  unfold renderCypher render
  rw [String.toList_ofList, List.flatMap_append, List.flatMap_append, List.flatMap_assoc,
    List.flatMap_assoc, hframes, ← List.singleton_append, ← List.append_assoc]
  exact ((lexes_cypherHeader graph).append hnodes).append hedges

/-- Lexing the script gives the comment and one statement for every node and every edge,
whatever the strings of the graph are. Ids may repeat and edges dangle. -/
theorem lex_renderCypher (graph : Graph) :
    ∃ tokens, lex (renderCypher graph).toList = some (.comment (commentText graph) :: tokens) ∧
      cut (.symbol ';') tokens = (scriptStatements graph, []) :=
  ⟨frames (.symbol ';') (scriptStatements graph), (lexes_scriptStatements graph).lex_eq,
    cut_frames (notMem_scriptStatements graph)⟩

end HabitatGraph
