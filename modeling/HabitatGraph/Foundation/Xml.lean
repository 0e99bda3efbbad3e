import HabitatGraph.Foundation.XmlLexer

/-! # Documents of XML

A document is its root element, with the character data and the elements inside of it in
their order. It is built from tokens with a stack of the elements that are open.
-/

namespace Xml

inductive Tree
  | text (chars : List Char)
  | element (name : List Char) (attrs : List Attr) (children : List Tree)

/-- An element that is open, with what is read of it. -/
structure Frame where
  name : List Char
  attrs : List Attr
  children : List Tree

def Frame.add (frame : Frame) (trees : List Tree) : Frame :=
  { frame with children := frame.children ++ trees }

def Frame.tree (frame : Frame) : Tree := .element frame.name frame.attrs frame.children

/-- Outside of the root, with the root when it is read, or inside of open elements. -/
inductive Builder
  | outside (root : Option Tree)
  | inside (frame : Frame) (outer : List Frame)

/-- Put a closed element into the one around it. -/
def close (tree : Tree) : List Frame → Builder
  | [] => .outside (some tree)
  | frame :: outer => .inside (frame.add [tree]) outer

def addToken : Builder → Token → Option Builder
  | .outside root, .text chars => if chars.all isBlank then some (.outside root) else none
  | .outside none, .opening name attrs => some (.inside ⟨name, attrs, []⟩ [])
  | .outside _, _ => none
  | .inside frame outer, .text chars => some (.inside (frame.add [.text chars]) outer)
  | .inside frame outer, .opening name attrs => some (.inside ⟨name, attrs, []⟩ (frame :: outer))
  | .inside frame outer, .closing name =>
      if name = frame.name then some (close frame.tree outer) else none

def addTokens : Builder → List Token → Option Builder
  | builder, [] => some builder
  | builder, token :: tokens => (addToken builder token).bind fun next => addTokens next tokens

/-- The document of some tokens: exactly one root, blanks around it. -/
def build (tokens : List Token) : Option Tree :=
  match addTokens (.outside none) tokens with
  | some (.outside root) => root
  | _ => none

def declaration : List Char := "<?xml version=\"1.0\" encoding=\"UTF-8\"?>".toList

/-- Read a document after its declaration. -/
def parse (chars : List Char) : Option Tree :=
  if declaration.isPrefixOf chars then (lex (chars.drop declaration.length)).bind build else none

/-! ## What a document holds -/

/-- Character data as children of an element. -/
def textNodes (chars : List Char) : List Tree := if chars = [] then [] else [.text chars]

mutual

/-- The elements of a name, in document order. -/
def Tree.named (name : List Char) : Tree → List Tree
  | .text _ => []
  | .element name' attrs children =>
      (if name' = name then [.element name' attrs children] else []) ++ namedAll name children

def namedAll (name : List Char) : List Tree → List Tree
  | [] => []
  | tree :: trees => tree.named name ++ namedAll name trees

end

def Tree.attr (key : List Char) : Tree → Option (List Char)
  | .text _ => none
  | .element _ attrs _ => attrs.lookup key

def Tree.children : Tree → List Tree
  | .text _ => []
  | .element _ _ children => children

/-- The character data right below an element. -/
def Tree.content (tree : Tree) : List Char :=
  tree.children.flatMap fun child =>
    match child with
    | .text chars => chars
    | .element _ _ _ => []

@[simp] theorem content_textNodes (name : List Char) (attrs : List Attr) (chars : List Char) :
    (Tree.element name attrs (textNodes chars)).content = chars := by
  unfold textNodes
  split
  next hnil => rw [hnil]; rfl
  next => exact List.append_nil chars

theorem namedAll_eq_flatMap (name : List Char) (trees : List Tree) :
    namedAll name trees = trees.flatMap fun tree => tree.named name := by
  induction trees with
  | nil => rfl
  | cons tree trees ih => rw [namedAll, ih, List.flatMap_cons]

theorem namedAll_append (name : List Char) (trees trees' : List Tree) :
    namedAll name (trees ++ trees') = namedAll name trees ++ namedAll name trees' := by
  rw [namedAll_eq_flatMap, namedAll_eq_flatMap, namedAll_eq_flatMap, List.flatMap_append]

theorem namedAll_flatMap {α : Type*} (name : List Char) (xs : List α) (trees : α → List Tree) :
    namedAll name (xs.flatMap trees) = xs.flatMap fun x => namedAll name (trees x) := by
  simp only [namedAll_eq_flatMap, List.flatMap_assoc]

@[simp] theorem namedAll_textNodes (name chars : List Char) :
    namedAll name (textNodes chars) = [] := by
  unfold textNodes
  split <;> rfl

/-! ## The tokens of a document -/

mutual

def Tree.tokens : Tree → List Token
  | .text chars => [.text chars]
  | .element name attrs children =>
      .opening name attrs :: (tokensAll children ++ [.closing name])

def tokensAll : List Tree → List Token
  | [] => []
  | tree :: trees => tree.tokens ++ tokensAll trees

end

theorem tokensAll_eq_flatMap (trees : List Tree) :
    tokensAll trees = trees.flatMap Tree.tokens := by
  induction trees with
  | nil => rfl
  | cons tree trees ih => rw [tokensAll, ih, List.flatMap_cons]

theorem tokensAll_append (trees trees' : List Tree) :
    tokensAll (trees ++ trees') = tokensAll trees ++ tokensAll trees' := by
  rw [tokensAll_eq_flatMap, tokensAll_eq_flatMap, tokensAll_eq_flatMap, List.flatMap_append]

theorem tokensAll_flatMap {α : Type*} (xs : List α) (trees : α → List Tree) :
    tokensAll (xs.flatMap trees) = xs.flatMap fun x => tokensAll (trees x) := by
  simp only [tokensAll_eq_flatMap, List.flatMap_assoc]

theorem tokensAll_textNodes (chars : List Char) :
    tokensAll (textNodes chars) = textTokens chars := by
  unfold textNodes textTokens
  split <;> rfl

theorem addTokens_append (builder : Builder) (tokens tokens' : List Token) :
    addTokens builder (tokens ++ tokens') =
      (addTokens builder tokens).bind fun next => addTokens next tokens' := by
  induction tokens generalizing builder with
  | nil => rfl
  | cons token tokens ih =>
      rw [List.cons_append, addTokens, addTokens, Option.bind_assoc]
      congr 1
      funext next
      exact ih next

mutual

/-- The tokens of a tree add the tree to the element that is open. -/
theorem addTokens_tree (tree : Tree) (frame : Frame) (outer : List Frame) :
    addTokens (.inside frame outer) tree.tokens = some (.inside (frame.add [tree]) outer) := by
  cases tree with
  | text chars => rfl
  | element name attrs children =>
      have hopen : addToken (.inside frame outer) (.opening name attrs) =
          some (.inside ⟨name, attrs, []⟩ (frame :: outer)) := rfl
      have hclose : addToken (.inside (Frame.add ⟨name, attrs, []⟩ children) (frame :: outer))
          (.closing name) = some (.inside (frame.add [.element name attrs children]) outer) :=
        if_pos rfl
      rw [Tree.tokens, addTokens, hopen, Option.bind_some, addTokens_append,
        addTokens_trees children, Option.bind_some, addTokens, hclose]
      rfl

theorem addTokens_trees (trees : List Tree) (frame : Frame) (outer : List Frame) :
    addTokens (.inside frame outer) (tokensAll trees) = some (.inside (frame.add trees) outer) := by
  cases trees with
  | nil => rw [tokensAll, addTokens, Frame.add, List.append_nil]
  | cons tree trees =>
      rw [tokensAll, addTokens_append, addTokens_tree tree, Option.bind_some,
        addTokens_trees trees, Frame.add, Frame.add, List.append_assoc, List.singleton_append]
      rfl

end

/-- A document is built from its tokens. -/
theorem build_tokens {blanks : List Char} (hblanks : blanks.all isBlank) (name : List Char)
    (attrs : List Attr) (children : List Tree) :
    build (textTokens blanks ++ (Tree.element name attrs children).tokens) =
      some (.element name attrs children) := by
  have hstart : addTokens (.outside none) (textTokens blanks) = some (.outside none) := by
    unfold textTokens
    split
    next => rfl
    next =>
      rw [addTokens, addToken, if_pos hblanks]
      rfl
  have hopen : addToken (.outside none) (.opening name attrs) =
      some (.inside ⟨name, attrs, []⟩ []) := rfl
  have hclose : addToken (.inside (Frame.add ⟨name, attrs, []⟩ children) []) (.closing name) =
      some (.outside (some (.element name attrs children))) := if_pos rfl
  rw [build, addTokens_append, hstart, Option.bind_some, Tree.tokens, addTokens, hopen,
    Option.bind_some, addTokens_append, addTokens_trees, Option.bind_some, addTokens, hclose]
  rfl

open Scanner

/-- A text that gives the tokens of a document, with blanks around it, is read as it. -/
theorem parse_eq {chars rest : List Char} {afterReturn : Bool} {blanks : List Char}
    {name : List Char} {attrs : List Attr} {children : List Tree}
    (hreads : Reads lexer (.text [] false) chars
      (textTokens blanks ++ (Tree.element name attrs children).tokens) (.text rest afterReturn))
    (hblanks : blanks.all isBlank) (hrest : rest.all isBlank) :
    parse (declaration ++ chars) = some (.element name attrs children) := by
  have hdeclared : declaration.isPrefixOf (declaration ++ chars) :=
    List.isPrefixOf_iff_prefix.mpr (List.prefix_append _ _)
  have hlex : lex chars =
      some (textTokens blanks ++ (Tree.element name attrs children).tokens) := by
    rw [lex, hreads]
    exact if_pos hrest
  rw [parse, if_pos hdeclared, List.drop_left, hlex, Option.bind_some, build_tokens hblanks]

end Xml
