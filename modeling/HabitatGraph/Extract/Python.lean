import HabitatGraph.Extract.Declarations

/-! # The Python extractor

Of a module only its top level is extracted: classes with their methods and with bases
that are plain names, functions, and imports of the form `from m import n`.
-/

namespace HabitatGraph

open SyntaxTree Extraction

namespace PythonExtractor

variable {source : List UInt8} (toLowercase : String → String) (b sourceFile : String)

/-- The classes at the top level. -/
def localClassNames (root : SyntaxTree source) : List String :=
  (namedChildren root).filterMap fun child =>
    if kind child = "class_definition" then lowerName toLowercase child else none

/-- The bases that are plain names. -/
def superclasses (node : SyntaxTree source) : List String :=
  match childByFieldName node "superclasses" with
  | none => []
  | some scNode => (namedChildren scNode).filterMap fun baseNode =>
      if kind baseNode = "identifier" then some (toLowercase (textOf baseNode)) else none

/-- The methods in the body of a class, with their nodes. -/
def methods (node : SyntaxTree source) : List (String × SyntaxTree source) :=
  match childByFieldName node "body" with
  | none => []
  | some bodyNode => (namedChildren bodyNode).filterMap fun methodNode =>
      if kind methodNode = "function_definition" then
        (childByFieldName methodNode "name").map fun nameNode =>
          (methodId toLowercase (textOf nameNode), methodNode)
      else none

def extractClass (localClasses : List String) (node : SyntaxTree source) : Extraction :=
  match lowerName toLowercase node with
  | none => .empty
  | some c => emitClass b sourceFile localClasses c node (superclasses toLowercase node)
      (methods toLowercase node)

def extractToplevelFn (node : SyntaxTree source) : Extraction :=
  match lowerName toLowercase node with
  | none => .empty
  | some fnLower => emitFunction b sourceFile fnLower node

/-- The module is taken as it is written, with the dots of a relative import. -/
def extractImportFrom (node : SyntaxTree source) : Extraction :=
  match childByFieldName node "module_name" with
  | none => .empty
  | some moduleNode => emitImport b (toLowercase (textOf moduleNode))

def extractChild (localClasses : List String) (child : SyntaxTree source) : Extraction :=
  if kind child = "class_definition" then extractClass toLowercase b sourceFile localClasses child
  else if kind child = "function_definition" then
    extractToplevelFn toLowercase b sourceFile child
  else if kind child = "import_from_statement" then extractImportFrom toLowercase b child
  else .empty

/-- The node of the file, then what its top level holds. -/
def extractTree (root : SyntaxTree source) : Extraction :=
  append ⟨[⟨b, sourceFile, makeSpan root⟩], []⟩ (concat ((namedChildren root).map
    (extractChild toLowercase b sourceFile (localClassNames toLowercase root))))

/-! ## What a module declares -/

/-- The declaration that a node at the top level is. -/
def declaration (child : SyntaxTree source) : Option Declaration :=
  if kind child = "class_definition" then
    (lowerName toLowercase child).map fun c =>
      .cls c (superclasses toLowercase child) ((methods toLowercase child).map Prod.fst)
  else if kind child = "function_definition" then (lowerName toLowercase child).map .function
  else if kind child = "import_from_statement" then
    (childByFieldName child "module_name").map fun moduleNode =>
      .imports (toLowercase (textOf moduleNode))
  else none

def declarations (root : SyntaxTree source) : List Declaration :=
  (namedChildren root).flatMap fun child => (declaration toLowercase child).toList

variable {toLowercase b sourceFile}

theorem emits_extractChild (localClasses : List String) (child : SyntaxTree source) :
    Emits b sourceFile localClasses (declaration toLowercase child).toList
      (extractChild toLowercase b sourceFile localClasses child) := by
  unfold extractChild declaration
  split
  next =>
    unfold extractClass
    cases lowerName toLowercase child with
    | none => exact emits_empty
    | some c => exact emits_class c child _ _
  next =>
    split
    next =>
      unfold extractToplevelFn
      cases lowerName toLowercase child with
      | none => exact emits_empty
      | some fnLower => exact emits_function fnLower child
    next =>
      split
      next =>
        unfold extractImportFrom
        cases childByFieldName child "module_name" with
        | none => exact emits_empty
        | some moduleNode => exact emits_import _
      next => exact emits_empty

theorem className_declaration (child : SyntaxTree source) :
    (declaration toLowercase child).bind Declaration.className =
      if kind child = "class_definition" then lowerName toLowercase child else none := by
  unfold declaration
  split
  next => cases lowerName toLowercase child <;> rfl
  next =>
    split
    next => cases lowerName toLowercase child <;> rfl
    next =>
      split
      next => cases childByFieldName child "module_name" <;> rfl
      next => rfl

theorem classNames_declarations (root : SyntaxTree source) :
    classNames (declarations toLowercase root) = localClassNames toLowercase root := by
  have hfold : declarations toLowercase root =
      (namedChildren root).filterMap (declaration toLowercase) := by
    rw [declarations, List.filterMap_eq_flatMap_toList]
  rw [classNames, hfold, List.filterMap_filterMap, localClassNames]
  exact congrArg (fun f => List.filterMap f _) (funext className_declaration)

/-- What is extracted from a module follows its outline. -/
theorem follows_extractTree (root : SyntaxTree source) :
    (extractTree toLowercase b sourceFile root).Follows
      (outline b (declarations toLowercase root)) := by
  refine Emits.follows ?_
  rw [classNames_declarations]
  exact emits_concat fun child _ => emits_extractChild _ child

theorem comesFrom_extractTree (root : SyntaxTree source) :
    (extractTree toLowercase b sourceFile root).ComesFrom sourceFile := by
  refine ComesFrom.append (fun n hn => List.mem_singleton.mp hn ▸ rfl) ?_
  exact (emits_concat fun child _ => emits_extractChild _ child).comesFrom

end PythonExtractor

end HabitatGraph
