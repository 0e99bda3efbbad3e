import HabitatGraph.Core.Sanitize
import HabitatGraph.Core.Schema
import HabitatGraph.Core.Text
import HabitatGraph.Foundation.Xml

/-! # GraphML export

A document with an element for every node and every edge, below the declarations of their
keys. All strings of the graph are escaped into character data, so that the elements are
those of the template whatever the strings are.
-/

namespace HabitatGraph

open Xml Scanner

/-- The escape of a character, nothing for one that no document may have. -/
def xmlEscapeChar (ch : Char) : List Char :=
  if ch = '&' then "&amp;".toList
  else if ch = '<' then "&lt;".toList
  else if ch = '>' then "&gt;".toList
  else if ch = '"' then "&quot;".toList
  else if ch = '\'' then "&apos;".toList
  else if ch = '\t' || ch = '\n' || ch = '\r' then [ch]
  else if ch.toNat < 0x20 then []
  else if ch.toNat = 0xFFFE || ch.toNat = 0xFFFF then []
  else [ch]

/-- Escape a string for character data or an attribute. -/
def xmlEscape (input : String) : String := String.ofList (input.toList.flatMap xmlEscapeChar)

def keyLabel : String := "d_label"

def keySourceFile : String := "d_source_file"

def keyRelation : String := "d_relation"

def keyConfidence : String := "d_confidence"

def xmlId (id : NodeId) : String := "n" ++ toString id.get.toNat

/-- The declaration of a key. -/
def keyLine (key for_ name : String) : String :=
  "  <key id=\"" ++ key ++ "\" for=\"" ++ for_ ++ "\" attr.name=\"" ++ name ++
    "\" attr.type=\"string\"/>"

def dataLine (key value : String) : String :=
  "      <data key=\"" ++ key ++ "\">" ++ value ++ "</data>"

/-- The lines above the nodes, without the declaration of the document. -/
def graphmlHeader : List String :=
  ["<graphml xmlns=\"http://graphml.graphdrawing.org/xmlns\"",
    "         xmlns:xsi=\"http://www.w3.org/2001/XMLSchema-instance\"",
    "         xsi:schemaLocation=\"http://graphml.graphdrawing.org/xmlns",
    "           http://graphml.graphdrawing.org/xmlns/1.0/graphml.xsd\">",
    keyLine keyLabel "node" "label",
    keyLine keySourceFile "node" "source_file",
    keyLine keyRelation "edge" "relation",
    keyLine keyConfidence "edge" "confidence",
    "  <graph id=\"G\" edgedefault=\"directed\">"]

def graphmlNode (node : Node) : List String :=
  ["    <node id=\"" ++ xmlId node.id ++ "\">",
    dataLine keyLabel (xmlEscape (sanitizeLabel node.label)),
    dataLine keySourceFile (xmlEscape node.sourceFile),
    "    </node>"]

def graphmlEdge (edge : Edge) : List String :=
  ["    <edge source=\"" ++ xmlId edge.source ++ "\" target=\"" ++ xmlId edge.target ++ "\">",
    dataLine keyRelation (xmlEscape (sanitizeLabel edge.relation)),
    dataLine keyConfidence (xmlEscape edge.confidence.asStr),
    "    </edge>"]

def graphmlFooter : List String := ["  </graph>", "</graphml>"]

/-- The document. -/
def renderGraphml (graph : Graph) : String :=
  unlines (["<?xml version=\"1.0\" encoding=\"UTF-8\"?>"] ++ graphmlHeader ++
    graph.nodes.flatMap graphmlNode ++ graph.edges.flatMap graphmlEdge ++ graphmlFooter)

/-! ## The elements -/

/-- A string as a document holds it: without what no document may have, its line ends line
feeds. -/
def xmlText (s : String) : List Char := lineEnds false (s.toList.filter isXmlChar)

def indent (n : Nat) : Tree := .text ('\n' :: List.replicate n ' ')

def dataElement (key : String) (value : List Char) : Tree :=
  .element "data".toList [("key".toList, key.toList)] (textNodes value)

def nodeElement (node : Node) : Tree :=
  .element "node".toList [("id".toList, (xmlId node.id).toList)]
    [indent 6, dataElement keyLabel (xmlText (sanitizeLabel node.label)),
      indent 6, dataElement keySourceFile (xmlText node.sourceFile), indent 4]

def edgeElement (edge : Edge) : Tree :=
  .element "edge".toList
    [("source".toList, (xmlId edge.source).toList), ("target".toList, (xmlId edge.target).toList)]
    [indent 6, dataElement keyRelation (xmlText (sanitizeLabel edge.relation)),
      indent 6, dataElement keyConfidence (xmlText edge.confidence.asStr), indent 4]

def keyElement (key for_ name : String) : Tree :=
  .element "key".toList
    [("id".toList, key.toList), ("for".toList, for_.toList), ("attr.name".toList, name.toList),
      ("attr.type".toList, "string".toList)] []

def graphElement (graph : Graph) : Tree :=
  .element "graph".toList [("id".toList, ['G']), ("edgedefault".toList, "directed".toList)]
    ((graph.nodes.flatMap fun node => [indent 4, nodeElement node]) ++
      (graph.edges.flatMap fun edge => [indent 4, edgeElement edge]) ++ [indent 2])

/-- The attributes of the root; the line feed in the last one is a blank. -/
def graphmlAttrs : List Attr :=
  [("xmlns".toList, "http://graphml.graphdrawing.org/xmlns".toList),
    ("xmlns:xsi".toList, "http://www.w3.org/2001/XMLSchema-instance".toList),
    ("xsi:schemaLocation".toList, ("http://graphml.graphdrawing.org/xmlns " ++
      "           http://graphml.graphdrawing.org/xmlns/1.0/graphml.xsd").toList)]

def keyElements : List Tree :=
  [indent 2, keyElement keyLabel "node" "label",
    indent 2, keyElement keySourceFile "node" "source_file",
    indent 2, keyElement keyRelation "edge" "relation",
    indent 2, keyElement keyConfidence "edge" "confidence"]

/-- The document that the export is the text of. -/
def graphmlElement (graph : Graph) : Tree :=
  .element "graphml".toList graphmlAttrs
    (keyElements ++ [indent 2, graphElement graph, .text ['\n']])

/-! ## Reading the lines -/

theorem escapesText_xmlEscapeChar : EscapesText xmlEscapeChar := by
  intro ch
  unfold xmlEscapeChar
  split_ifs with hamp hlt hgt hquot hapos hblank hcontrol hnone
  · exact Or.inr (Or.inr ⟨"amp".toList, by rw [hamp]; decide, by decide⟩)
  · exact Or.inr (Or.inr ⟨"lt".toList, by rw [hlt]; decide, by decide⟩)
  · exact Or.inr (Or.inr ⟨"gt".toList, by rw [hgt]; decide, by decide⟩)
  · exact Or.inr (Or.inr ⟨"quot".toList, by rw [hquot]; decide, by decide⟩)
  · exact Or.inr (Or.inr ⟨"apos".toList, by rw [hapos]; decide, by decide⟩)
  · have hlegal : isXmlChar ch := by
      rw [Bool.or_eq_true, Bool.or_eq_true, decide_eq_true_eq, decide_eq_true_eq,
        decide_eq_true_eq] at hblank
      rcases hblank with (rfl | rfl) | rfl <;> decide
    exact Or.inr (Or.inl ⟨hlegal, hlt, hamp, hgt, rfl⟩)
  · have hillegal : isXmlChar ch = false := by
      rw [Bool.or_eq_true, Bool.or_eq_true, not_or, not_or] at hblank
      simp only [decide_eq_true_eq] at hblank
      have hsmall : ¬ 32 ≤ ch.toNat := Nat.not_le.mpr hcontrol
      simp [isXmlChar, hblank, hsmall]
    exact Or.inl ⟨hillegal, rfl⟩
  · have hillegal : isXmlChar ch = false := by
      rw [Bool.or_eq_true, decide_eq_true_eq, decide_eq_true_eq] at hnone
      rcases hnone with hnone | hnone <;> simp [isXmlChar, hnone]
    exact Or.inl ⟨hillegal, rfl⟩
  · have hlegal : isXmlChar ch := by
      rw [Bool.or_eq_true, not_or, decide_eq_true_eq, decide_eq_true_eq] at hnone
      simp [isXmlChar, Nat.not_lt.mp hcontrol, hnone]
    exact Or.inr (Or.inl ⟨hlegal, hlt, hamp, hgt, rfl⟩)

theorem reads_xmlEscape (s : String) :
    ∃ last, Reads lexer (.text [] false) (xmlEscape s).toList [] (.text (xmlText s) last) := by
  rw [xmlEscape, String.toList_ofList]
  exact escapesText_xmlEscapeChar.reads s.toList [] false

theorem reads_close (chars : List Char) (last : Bool) :
    Reads lexer (.text chars last) ("</data>".toList ++ ['\n'])
      (textTokens chars ++ [.closing "data".toList]) (.text ['\n'] false) := by
  have hchars : "</data>".toList ++ ['\n'] = '<' :: ("/data>".toList ++ ['\n']) := by decide
  have hstep : lexer (.text chars last) '<' = some (textTokens chars, .tagStart) := by
    rw [lexer, if_pos rfl]
  have hend : Reads lexer .tagStart ("/data>".toList ++ ['\n']) [.closing "data".toList]
      (.text ['\n'] false) := by decide
  rw [hchars]
  exact Reads.cons hstep hend

theorem reads_dataKey {key : String} (hkey : ∀ ch ∈ key.toList, IsPlain ch) :
    Reads lexer (.text ['\n'] false) ("      <data key=\"" ++ key ++ "\">").toList
      [.text "\n      ".toList, .opening "data".toList [("key".toList, key.toList)]]
      (.text [] false) := by
  have hstart : Reads lexer (.text ['\n'] false) "      <data key=\"".toList
      [.text "\n      ".toList] (.attrValue "data".toList [] "key".toList []) := by decide
  have hattr := reads_attrValue hkey "data".toList [] "key".toList []
  have hend : Reads lexer (.attrValue "data".toList [] "key".toList key.toList) "\">".toList
      [.opening "data".toList [("key".toList, key.toList)]] (.text [] false) := rfl
  rw [String.toList_append, String.toList_append, List.append_assoc]
  exact hstart.append (hattr.skip_append hend)

theorem isPlain_keys : ∀ key ∈ [keyLabel, keySourceFile, keyRelation, keyConfidence],
    ∀ ch ∈ key.toList, IsPlain ch := by
  have hkeys : ∀ key ∈ [keyLabel, keySourceFile, keyRelation, keyConfidence],
      key.toList.all fun ch => IsPlain ch := by decide
  intro key hkey
  exact List.all_iff_forall_prop.mp (hkeys key hkey)

/-- A line of data gives the element of its key and its value. -/
theorem reads_dataLine {key value : String} {chars : List Char} {last : Bool}
    (hkey : key ∈ [keyLabel, keySourceFile, keyRelation, keyConfidence])
    (hvalue : Reads lexer (.text [] false) value.toList [] (.text chars last)) :
    Reads lexer (.text ['\n'] false) ((dataLine key value).toList ++ ['\n'])
      (tokensAll [indent 6, dataElement key chars]) (.text ['\n'] false) := by
  have hline : (dataLine key value).toList ++ ['\n'] =
      ("      <data key=\"" ++ key ++ "\">").toList ++
        (value.toList ++ ("</data>".toList ++ ['\n'])) := by
    unfold dataLine
    simp only [String.toList_append, List.append_assoc]
  have htokens : tokensAll [indent 6, dataElement key chars] =
      [.text "\n      ".toList, .opening "data".toList [("key".toList, key.toList)]] ++
        (textTokens chars ++ [.closing "data".toList]) := by
    rw [tokensAll, tokensAll, tokensAll, List.append_nil, dataElement, Tree.tokens,
      tokensAll_textNodes]
    rfl
  rw [hline, htokens]
  exact (reads_dataKey (isPlain_keys key hkey)).append
    (hvalue.skip_append (reads_close chars last))

theorem isPlain_xmlId (id : NodeId) : ∀ ch ∈ (xmlId id).toList, IsPlain ch := by
  have hdigit : ∀ d < 10, IsPlain d.digitChar := by
    simp only [IsPlain]
    decide
  intro ch hch
  rw [xmlId, String.toList_append, List.mem_append] at hch
  rcases hch with hch | hch
  · simp only [IsPlain]
    rw [List.mem_singleton.mp hch]
    decide
  · rw [Nat.toString_eq_ofList_toDigits, String.toList_ofList] at hch
    obtain ⟨d, hd, rfl⟩ := exists_digitChar_of_mem_toDigits (by decide) hch
    exact hdigit d hd

/-- The lines of a node give its element. -/
theorem reads_graphmlNode (node : Node) :
    Reads lexer (.text ['\n'] false) ((graphmlNode node).flatMap fun line => line.toList ++ ['\n'])
      (tokensAll [indent 4, nodeElement node]) (.text ['\n'] false) := by
  have hstart : Reads lexer (.text ['\n'] false) "    <node id=\"".toList
      [.text "\n    ".toList] (.attrValue "node".toList [] "id".toList []) := by decide
  have hid := reads_attrValue (isPlain_xmlId node.id) "node".toList [] "id".toList []
  have htag : Reads lexer (.attrValue "node".toList [] "id".toList (xmlId node.id).toList)
      ("\">".toList ++ ['\n']) [.opening "node".toList [("id".toList, (xmlId node.id).toList)]]
      (.text ['\n'] false) := rfl
  obtain ⟨_, hlabel⟩ := reads_xmlEscape (sanitizeLabel node.label)
  obtain ⟨_, hfile⟩ := reads_xmlEscape node.sourceFile
  have hfirst := reads_dataLine (show keyLabel ∈ _ by simp) hlabel
  have hsecond := reads_dataLine (show keySourceFile ∈ _ by simp) hfile
  have hend : Reads lexer (.text ['\n'] false) ("    </node>".toList ++ ['\n'])
      [.text "\n    ".toList, .closing "node".toList] (.text ['\n'] false) := by decide
  have hlines : ((graphmlNode node).flatMap fun line => line.toList ++ ['\n']) =
      "    <node id=\"".toList ++ ((xmlId node.id).toList ++ (("\">".toList ++ ['\n']) ++
        (((dataLine keyLabel (xmlEscape (sanitizeLabel node.label))).toList ++ ['\n']) ++
          (((dataLine keySourceFile (xmlEscape node.sourceFile)).toList ++ ['\n']) ++
            ("    </node>".toList ++ ['\n']))))) := by
    simp only [graphmlNode, List.flatMap_cons, List.flatMap_nil, String.toList_append,
      List.append_assoc, List.append_nil]
  have htokens : tokensAll [indent 4, nodeElement node] =
      [.text "\n    ".toList] ++
        ([.opening "node".toList [("id".toList, (xmlId node.id).toList)]] ++
          (tokensAll [indent 6, dataElement keyLabel (xmlText (sanitizeLabel node.label))] ++
            (tokensAll [indent 6, dataElement keySourceFile (xmlText node.sourceFile)] ++
              [.text "\n    ".toList, .closing "node".toList]))) := by
    simp only [nodeElement, tokensAll, Tree.tokens, List.append_nil, List.append_assoc,
      List.cons_append, List.nil_append]
    rfl
  rw [hlines, htokens]
  exact hstart.append (hid.skip_append (htag.append (hfirst.append (hsecond.append hend))))

/-- The lines of an edge give its element. -/
theorem reads_graphmlEdge (edge : Edge) :
    Reads lexer (.text ['\n'] false) ((graphmlEdge edge).flatMap fun line => line.toList ++ ['\n'])
      (tokensAll [indent 4, edgeElement edge]) (.text ['\n'] false) := by
  -- the tag: what the template writes, with the two ids in between
  have hstart : Reads lexer (.text ['\n'] false) "    <edge source=\"".toList
      [.text "\n    ".toList] (.attrValue "edge".toList [] "source".toList []) := by decide
  have hsource := reads_attrValue (isPlain_xmlId edge.source) "edge".toList [] "source".toList []
  have hbetween : Reads lexer
      (.attrValue "edge".toList [] "source".toList (xmlId edge.source).toList)
      "\" target=\"".toList [] (.attrValue "edge".toList
        [("source".toList, (xmlId edge.source).toList)] "target".toList []) := rfl
  have htarget := reads_attrValue (isPlain_xmlId edge.target) "edge".toList
    [("source".toList, (xmlId edge.source).toList)] "target".toList []
  have htag : Reads lexer (.attrValue "edge".toList
      [("source".toList, (xmlId edge.source).toList)] "target".toList (xmlId edge.target).toList)
      ("\">".toList ++ ['\n']) [.opening "edge".toList
        [("source".toList, (xmlId edge.source).toList),
          ("target".toList, (xmlId edge.target).toList)]] (.text ['\n'] false) := rfl
  obtain ⟨_, hrelation⟩ := reads_xmlEscape (sanitizeLabel edge.relation)
  obtain ⟨_, hconfidence⟩ := reads_xmlEscape edge.confidence.asStr
  have hfirst := reads_dataLine (show keyRelation ∈ _ by simp) hrelation
  have hsecond := reads_dataLine (show keyConfidence ∈ _ by simp) hconfidence
  have hend : Reads lexer (.text ['\n'] false) ("    </edge>".toList ++ ['\n'])
      [.text "\n    ".toList, .closing "edge".toList] (.text ['\n'] false) := by decide
  have hlines : ((graphmlEdge edge).flatMap fun line => line.toList ++ ['\n']) =
      "    <edge source=\"".toList ++ ((xmlId edge.source).toList ++
        ("\" target=\"".toList ++ ((xmlId edge.target).toList ++ (("\">".toList ++ ['\n']) ++
          (((dataLine keyRelation (xmlEscape (sanitizeLabel edge.relation))).toList ++ ['\n']) ++
            (((dataLine keyConfidence (xmlEscape edge.confidence.asStr)).toList ++ ['\n']) ++
              ("    </edge>".toList ++ ['\n']))))))) := by
    simp only [graphmlEdge, List.flatMap_cons, List.flatMap_nil, String.toList_append,
      List.append_assoc, List.append_nil]
  have htokens : tokensAll [indent 4, edgeElement edge] =
      [.text "\n    ".toList] ++
        ([.opening "edge".toList [("source".toList, (xmlId edge.source).toList),
            ("target".toList, (xmlId edge.target).toList)]] ++
          (tokensAll [indent 6, dataElement keyRelation (xmlText (sanitizeLabel edge.relation))] ++
            (tokensAll [indent 6, dataElement keyConfidence (xmlText edge.confidence.asStr)] ++
              [.text "\n    ".toList, .closing "edge".toList]))) := by
    simp only [edgeElement, tokensAll, Tree.tokens, List.append_nil, List.append_assoc,
      List.cons_append, List.nil_append]
    rfl
  rw [hlines, htokens]
  exact hstart.append (hsource.skip_append (hbetween.skip_append (htarget.skip_append
    (htag.append (hfirst.append (hsecond.append hend))))))

theorem reads_graphmlRoot :
    Reads lexer (.text [] false)
      ('\n' :: (graphmlHeader.take 4).flatMap fun line => line.toList ++ ['\n'])
      [.text ['\n'], .opening "graphml".toList graphmlAttrs] (.text ['\n'] false) := by
  decide +kernel

theorem reads_graphmlKeys :
    Reads lexer (.text ['\n'] false)
      ((graphmlHeader.drop 4).flatMap fun line => line.toList ++ ['\n'])
      (tokensAll keyElements ++ [.text "\n  ".toList, .opening "graph".toList
        [("id".toList, ['G']), ("edgedefault".toList, "directed".toList)]])
      (.text ['\n'] false) := by
  unfold graphmlHeader keyLine
  simp only [List.drop, List.flatMap_cons, String.toList_append]
  decide +kernel

theorem reads_graphmlFooter :
    Reads lexer (.text ['\n'] false) (graphmlFooter.flatMap fun line => line.toList ++ ['\n'])
      [.text "\n  ".toList, .closing "graph".toList, .text ['\n'], .closing "graphml".toList]
      (.text ['\n'] false) := by decide

theorem tokens_graphElement (graph : Graph) :
    (graphElement graph).tokens =
      .opening "graph".toList [("id".toList, ['G']), ("edgedefault".toList, "directed".toList)] ::
        ((graph.nodes.flatMap fun node => tokensAll [indent 4, nodeElement node]) ++
          ((graph.edges.flatMap fun edge => tokensAll [indent 4, edgeElement edge]) ++
            [.text "\n  ".toList, .closing "graph".toList])) := by
  rw [graphElement, Tree.tokens, tokensAll_append, tokensAll_append, tokensAll_flatMap,
    tokensAll_flatMap, List.append_assoc, List.append_assoc]
  rfl

/-- The export is the text of its document. -/
theorem parse_renderGraphml (graph : Graph) :
    parse (renderGraphml graph).toList = some (graphmlElement graph) := by
  have hnodes := reads_flatMap fun node (_ : node ∈ graph.nodes) => reads_graphmlNode node
  have hedges := reads_flatMap fun edge (_ : edge ∈ graph.edges) => reads_graphmlEdge edge
  have hreads := reads_graphmlRoot.append (reads_graphmlKeys.append
    (hnodes.append (hedges.append reads_graphmlFooter)))
  have hheader : graphmlHeader.take 4 ++ graphmlHeader.drop 4 = graphmlHeader :=
    List.take_append_drop 4 graphmlHeader
  have htext : (renderGraphml graph).toList = declaration ++
      (('\n' :: (graphmlHeader.take 4).flatMap fun line => line.toList ++ ['\n']) ++
        (((graphmlHeader.drop 4).flatMap fun line => line.toList ++ ['\n']) ++
          ((graph.nodes.flatMap fun node =>
              (graphmlNode node).flatMap fun line => line.toList ++ ['\n']) ++
            ((graph.edges.flatMap fun edge =>
                (graphmlEdge edge).flatMap fun line => line.toList ++ ['\n']) ++
              graphmlFooter.flatMap fun line => line.toList ++ ['\n'])))) := by
    rw [renderGraphml, unlines, String.toList_ofList, ← hheader]
    simp only [List.flatMap_append, List.flatMap_assoc, List.append_assoc]
    rfl
  have htokens : [Token.text ['\n'], .opening "graphml".toList graphmlAttrs] ++
      (tokensAll keyElements ++ [.text "\n  ".toList, .opening "graph".toList
          [("id".toList, ['G']), ("edgedefault".toList, "directed".toList)]] ++
      ((graph.nodes.flatMap fun node => tokensAll [indent 4, nodeElement node]) ++
        ((graph.edges.flatMap fun edge => tokensAll [indent 4, edgeElement edge]) ++
          [.text "\n  ".toList, .closing "graph".toList, .text ['\n'],
            .closing "graphml".toList]))) =
      textTokens ['\n'] ++ (graphmlElement graph).tokens := by
    rw [graphmlElement, Tree.tokens, tokensAll_append, tokensAll, tokensAll, tokensAll, tokensAll,
      tokens_graphElement]
    simp only [List.append_assoc, List.cons_append, List.nil_append, List.append_nil]
    rfl
  rw [htokens] at hreads
  rw [htext]
  exact parse_eq hreads (by decide) (by decide)

/-! ## Nodes and edges of the document -/

/-- The keys and the texts of the data of an element. -/
def elementData (tree : Tree) : List (Option (List Char) × List Char) :=
  (tree.named "data".toList).map fun data => (data.attr "key".toList, data.content)

theorem named_dataElement_of_ne {name : List Char} (hname : "data".toList ≠ name) (key : String)
    (value : List Char) : (dataElement key value).named name = [] := by
  rw [dataElement, Tree.named, if_neg hname, namedAll_textNodes]
  rfl

theorem named_dataElement (key : String) (value : List Char) :
    (dataElement key value).named "data".toList = [dataElement key value] := by
  rw [dataElement, Tree.named, if_pos rfl, namedAll_textNodes]
  rfl

theorem attr_dataElement (key : String) (value : List Char) :
    (dataElement key value).attr "key".toList = some key.toList := by
  rw [dataElement, Tree.attr, List.lookup_cons_self]

/-- The element of a node or an edge has no element of a node or an edge inside of it. -/
theorem namedAll_pair {name name' : List Char} (hdata : "data".toList ≠ name)
    (attrs : List Attr) (key key' : String) (value value' : List Char) :
    namedAll name [indent 4, .element name' attrs [indent 6, dataElement key value, indent 6,
        dataElement key' value', indent 4]] =
      if name' = name then [.element name' attrs [indent 6, dataElement key value, indent 6,
        dataElement key' value', indent 4]] else [] := by
  have hindent : ∀ n, (indent n).named name = [] := fun n => rfl
  simp only [namedAll, hindent, Tree.named, named_dataElement_of_ne hdata, List.append_nil,
    List.nil_append]

theorem elementData_pair (name : List Char) (hname : name ≠ "data".toList) (attrs : List Attr)
    (key key' : String) (value value' : List Char) :
    elementData (.element name attrs [indent 6, dataElement key value, indent 6,
        dataElement key' value', indent 4]) =
      [(some key.toList, value), (some key'.toList, value')] := by
  have hindent : ∀ n, (indent n).named "data".toList = [] := fun n => rfl
  have hcontent : ∀ key value, (dataElement key value).content = value :=
    fun _ _ => content_textNodes _ _ _
  simp only [elementData, namedAll, hindent, Tree.named, if_neg hname, named_dataElement,
    List.append_nil, List.nil_append, List.cons_append, List.map_cons, List.map_nil,
    attr_dataElement, hcontent]

theorem named_graphmlElement {name : List Char}
    (houter : "graphml".toList ≠ name ∧ "key".toList ≠ name ∧ "graph".toList ≠ name)
    (graph : Graph) :
    (graphmlElement graph).named name =
      (graph.nodes.flatMap fun node => namedAll name [indent 4, nodeElement node]) ++
        graph.edges.flatMap fun edge => namedAll name [indent 4, edgeElement edge] := by
  obtain ⟨hroot, hkey, hgraph⟩ := houter
  have hindent : ∀ n, (indent n).named name = [] := fun n => rfl
  have hkeys : namedAll name keyElements = [] := by
    simp only [keyElements, namedAll, hindent, keyElement, Tree.named, if_neg hkey,
      List.append_nil]
  rw [graphmlElement, Tree.named, if_neg hroot, namedAll_append, hkeys]
  simp only [namedAll, graphElement, Tree.named, hindent, if_neg hgraph, namedAll_append,
    namedAll_flatMap, List.append_nil, List.nil_append]

/-- The export is a document with an element for each node and for each edge, in their
order, with the ids and the data of it. No string of the graph ends an element or an
attribute early, whatever characters it has. -/
theorem renderGraphml_elements (graph : Graph) :
    ∃ doc, parse (renderGraphml graph).toList = some doc ∧
      (doc.named "node".toList).map (fun e => (e.attr "id".toList, elementData e)) =
        graph.nodes.map (fun node => (some (xmlId node.id).toList,
          [(some keyLabel.toList, xmlText (sanitizeLabel node.label)),
            (some keySourceFile.toList, xmlText node.sourceFile)])) ∧
      (doc.named "edge".toList).map (fun e =>
          (e.attr "source".toList, e.attr "target".toList, elementData e)) =
        graph.edges.map (fun edge =>
          (some (xmlId edge.source).toList, some (xmlId edge.target).toList,
            [(some keyRelation.toList, xmlText (sanitizeLabel edge.relation)),
              (some keyConfidence.toList, xmlText edge.confidence.asStr)])) := by
  have hdataNode : "data".toList ≠ "node".toList := by decide
  have hdataEdge : "data".toList ≠ "edge".toList := by decide
  have hedgeNode : "edge".toList ≠ "node".toList := by decide
  refine ⟨graphmlElement graph, parse_renderGraphml graph, ?_, ?_⟩
  · have hnone : (graph.edges.flatMap fun _ => ([] : List Tree)) = [] :=
      List.flatMap_eq_nil_iff.mpr fun _ _ => rfl
    have hnodes : (graphmlElement graph).named "node".toList = graph.nodes.map nodeElement := by
      rw [named_graphmlElement (by decide)]
      simp only [nodeElement, edgeElement, namedAll_pair hdataNode, if_neg hedgeNode,
        hnone, List.append_nil, if_true]
      exact List.map_eq_flatMap.symm
    rw [hnodes, List.map_map]
    apply List.map_congr_left
    intro node _
    simp only [Function.comp_apply, nodeElement, Tree.attr, List.lookup_cons_self,
      elementData_pair _ hdataNode.symm]
  · have hnone : (graph.nodes.flatMap fun _ => ([] : List Tree)) = [] :=
      List.flatMap_eq_nil_iff.mpr fun _ _ => rfl
    have hedges : (graphmlElement graph).named "edge".toList = graph.edges.map edgeElement := by
      rw [named_graphmlElement (by decide)]
      simp only [nodeElement, edgeElement, namedAll_pair hdataEdge, if_neg hedgeNode.symm,
        hnone, List.nil_append, if_true]
      exact List.map_eq_flatMap.symm
    have htarget : ("target".toList == "source".toList) = false := by decide
    rw [hedges, List.map_map]
    apply List.map_congr_left
    intro edge _
    simp only [Function.comp_apply, edgeElement, Tree.attr, List.lookup_cons_self,
      List.lookup_cons, htarget, elementData_pair _ hdataEdge.symm]

end HabitatGraph
