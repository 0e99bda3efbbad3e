import HabitatGraph.Extract.Declarations

/-! # The Go extractor

Functions, types, methods and imports at the top level of a file. A method belongs to the
type of its receiver, which another file of the package may declare.
-/

namespace HabitatGraph

open SyntaxTree Extraction

namespace GoExtractor

variable {source : List UInt8} (toLowercase : String → String) (b sourceFile : String)

/-- The plain name of a receiver's type, or of what it points to. -/
def receiverTypeName (receiverList : SyntaxTree source) : Option String := do
  let paramDecl ← (namedChildren receiverList).head?
  if kind paramDecl ≠ "parameter_declaration" then none
  else
    let typeNode ← childByFieldName paramDecl "type"
    if kind typeNode = "type_identifier" then some (toLowercase (textOf typeNode))
    else if kind typeNode = "pointer_type" then
      let inner ← (namedChildren typeNode).head?
      if kind inner = "type_identifier" then some (toLowercase (textOf inner)) else none
    else none

/-- The path of an import, unless it is empty. -/
def importSpecPath (spec : SyntaxTree source) : Option String :=
  (childByFieldName spec "path").bind fun pathNode =>
    let stripped := String.ofList
      (((textOf pathNode).toList.dropWhile fun ch => ch ∈ ['"', '\x60']).rdropWhile
        fun ch => ch ∈ ['"', '\x60'])
    if stripped.isEmpty then none else some (toLowercase stripped)

/-- The paths that a declaration imports, one or a group. -/
def importPaths (node : SyntaxTree source) : List String :=
  match (namedChildren node).head? with
  | none => []
  | some child =>
      if kind child = "import_spec" then (importSpecPath toLowercase child).toList
      else if kind child = "import_spec_list" then
        (namedChildren child).filterMap fun spec =>
          if kind spec = "import_spec" then importSpecPath toLowercase spec else none
      else []

def extractImport (node : SyntaxTree source) : Extraction :=
  concat ((importPaths toLowercase node).map (emitImport b))

def extractFunction (node : SyntaxTree source) : Extraction :=
  match lowerName toLowercase node with
  | none => .empty
  | some fnLower => emitFunction b sourceFile fnLower node

/-- The type and the name of a method. -/
def methodName (node : SyntaxTree source) : Option (String × String) := do
  let receiverNode ← childByFieldName node "receiver"
  let t ← receiverTypeName toLowercase receiverNode
  let methodLower ← lowerName toLowercase node
  some (t, methodLower)

def extractMethod (node : SyntaxTree source) : Extraction :=
  match methodName toLowercase node with
  | none => .empty
  | some m => emitMethod b sourceFile m.1 m.2 node

/-- The types of a declaration, with their nodes. -/
def typeSpecs (node : SyntaxTree source) : List (String × SyntaxTree source) :=
  (namedChildren node).filterMap fun child =>
    if kind child ∈ ["type_spec", "type_alias"] then
      (lowerName toLowercase child).map fun typeLower => (typeLower, child)
    else none

def extractTypeDecl (node : SyntaxTree source) : Extraction :=
  concat ((typeSpecs toLowercase node).map fun t =>
    emitItem sourceFile b (qualify b t.1) "contains" t.2)

def extractChild (child : SyntaxTree source) : Extraction :=
  if kind child = "function_declaration" then extractFunction toLowercase b sourceFile child
  else if kind child = "method_declaration" then extractMethod toLowercase b sourceFile child
  else if kind child = "type_declaration" then extractTypeDecl toLowercase b sourceFile child
  else if kind child = "import_declaration" then extractImport toLowercase b child
  else .empty

/-- The node of the file, then what its top level holds. -/
def extractTree (root : SyntaxTree source) : Extraction :=
  append ⟨[⟨b, sourceFile, makeSpan root⟩], []⟩
    (concat ((namedChildren root).map (extractChild toLowercase b sourceFile)))

/-! ## What a file declares -/

/-- The declarations in a node at the top level. A type is a class without bases. -/
def childDeclarations (child : SyntaxTree source) : List Declaration :=
  if kind child = "function_declaration" then
    ((lowerName toLowercase child).map .function).toList
  else if kind child = "method_declaration" then
    ((methodName toLowercase child).map fun m => .method m.1 m.2).toList
  else if kind child = "type_declaration" then
    (typeSpecs toLowercase child).flatMap fun t => [.cls t.1 [] []]
  else if kind child = "import_declaration" then
    (importPaths toLowercase child).flatMap fun path => [.imports path]
  else []

def declarations (root : SyntaxTree source) : List Declaration :=
  (namedChildren root).flatMap (childDeclarations toLowercase)

variable {toLowercase b sourceFile}

theorem emits_extractChild (localClasses : List String) (child : SyntaxTree source) :
    Emits b sourceFile localClasses (childDeclarations toLowercase child)
      (extractChild toLowercase b sourceFile child) := by
  unfold extractChild childDeclarations
  split
  next =>
    unfold extractFunction
    cases lowerName toLowercase child with
    | none => exact emits_empty
    | some fnLower => exact emits_function fnLower child
  next =>
    split
    next =>
      unfold extractMethod
      cases methodName toLowercase child with
      | none => exact emits_empty
      | some m => exact emits_method m.1 m.2 child
    next =>
      split
      next => exact emits_concat fun t _ => emits_class t.1 t.2 [] []
      next =>
        split
        next => exact emits_concat fun path _ => emits_import path
        next => exact emits_empty

/-- What is extracted from a file follows its outline. -/
theorem follows_extractTree (root : SyntaxTree source) :
    (extractTree toLowercase b sourceFile root).Follows
      (outline b (declarations toLowercase root)) :=
  Emits.follows (emits_concat fun child _ => emits_extractChild _ child)

theorem comesFrom_extractTree (root : SyntaxTree source) :
    (extractTree toLowercase b sourceFile root).ComesFrom sourceFile := by
  refine ComesFrom.append (fun n hn => List.mem_singleton.mp hn ▸ rfl) ?_
  exact (emits_concat fun child _ => @emits_extractChild _ _ b _ [] child).comesFrom

end GoExtractor

end HabitatGraph
