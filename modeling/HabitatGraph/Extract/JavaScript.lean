import HabitatGraph.Extract.Declarations

/-! # The JavaScript extractor

The top level of a module is extracted, exported declarations like others: classes,
functions, variables that hold a function, and imports.
-/

namespace HabitatGraph

open SyntaxTree Extraction

namespace JsExtractor

variable {source : List UInt8} (toLowercase : String → String) (b sourceFile : String)

/-- The text inside the quotes of a string. -/
def stringContent (stringNode : SyntaxTree source) : String :=
  match (namedChildren stringNode).find? fun child => kind child = "string_fragment" with
  | some fragment => toLowercase (textOf fragment)
  | none => toLowercase (String.ofList
      (((textOf stringNode).toList.dropWhile fun ch => ch ∈ ['\'', '"']).rdropWhile
        fun ch => ch ∈ ['\'', '"']))

/-- The name of a class at the top level, exported or not. -/
def localClassName (child : SyntaxTree source) : Option String :=
  if kind child = "class_declaration" then lowerName toLowercase child
  else if kind child = "export_statement" then
    (childByFieldName child "declaration").bind fun decl =>
      if kind decl = "class_declaration" then lowerName toLowercase decl else none
  else none

/-- The classes at the top level, exported ones too. -/
def localClassNames (root : SyntaxTree source) : List String :=
  (namedChildren root).filterMap (localClassName toLowercase)

/-- What a class extends, where that is a plain name. -/
def heritage (node : SyntaxTree source) : List String :=
  (namedChildren node).filterMap fun child =>
    if kind child ≠ "class_heritage" then none
    else (namedChildren child).head?.bind fun baseNode =>
      if kind baseNode = "identifier" then some (toLowercase (textOf baseNode)) else none

/-- The name of a method as it is written, a private one without its hash. -/
def rawMethod (mnameNode : SyntaxTree source) : Option String :=
  if kind mnameNode = "property_identifier" then some (textOf mnameNode)
  else if kind mnameNode = "private_property_identifier" then
    some (String.ofList ((textOf mnameNode).toList.dropWhile (· == '#')))
  else none

/-- The methods in the body of a class, with their nodes. -/
def methods (node : SyntaxTree source) : List (String × SyntaxTree source) :=
  match childByFieldName node "body" with
  | none => []
  | some bodyNode => (namedChildren bodyNode).filterMap fun member =>
      if kind member ≠ "method_definition" then none
      else (childByFieldName member "name").bind fun mnameNode =>
        (rawMethod mnameNode).map fun raw => (methodId toLowercase raw, member)

def extractClass (localClasses : List String) (node : SyntaxTree source) : Extraction :=
  match lowerName toLowercase node with
  | none => .empty
  | some c => emitClass b sourceFile localClasses c node (heritage toLowercase node)
      (methods toLowercase node)

def extractToplevelFn (node : SyntaxTree source) : Extraction :=
  match lowerName toLowercase node with
  | none => .empty
  | some fnLower => emitFunction b sourceFile fnLower node

/-- The variables of a declaration that hold a function, with their nodes. -/
def functionVariables (node : SyntaxTree source) : List (String × SyntaxTree source) :=
  (namedChildren node).filterMap fun declarator =>
    if kind declarator ≠ "variable_declarator" then none
    else (childByFieldName declarator "name").bind fun nameNode =>
      if kind nameNode ≠ "identifier" then none
      else (childByFieldName declarator "value").bind fun valueNode =>
        if kind valueNode ∈ ["arrow_function", "function_expression"] then
          some (toLowercase (textOf nameNode), declarator)
        else none

def extractVarDecl (node : SyntaxTree source) : Extraction :=
  concat ((functionVariables toLowercase node).map fun v => emitFunction b sourceFile v.1 v.2)

def extractImport (node : SyntaxTree source) : Extraction :=
  match childByFieldName node "source" with
  | none => .empty
  | some sourceNode => emitImport b (stringContent toLowercase sourceNode)

/-- A declaration, exported or not. -/
def extractDecl (localClasses : List String) (decl : SyntaxTree source) : Extraction :=
  if kind decl ∈ ["function_declaration", "generator_function_declaration"] then
    extractToplevelFn toLowercase b sourceFile decl
  else if kind decl = "class_declaration" then
    extractClass toLowercase b sourceFile localClasses decl
  else if kind decl ∈ ["lexical_declaration", "variable_declaration"] then
    extractVarDecl toLowercase b sourceFile decl
  else .empty

def extractExport (localClasses : List String) (node : SyntaxTree source) : Extraction :=
  match childByFieldName node "declaration" with
  | none => .empty
  | some decl => extractDecl toLowercase b sourceFile localClasses decl

def extractChild (localClasses : List String) (child : SyntaxTree source) : Extraction :=
  if kind child = "import_statement" then extractImport toLowercase b child
  else if kind child = "export_statement" then
    extractExport toLowercase b sourceFile localClasses child
  else extractDecl toLowercase b sourceFile localClasses child

/-- The node of the file, then what its top level holds. -/
def extractTree (root : SyntaxTree source) : Extraction :=
  append ⟨[⟨b, sourceFile, makeSpan root⟩], []⟩ (concat ((namedChildren root).map
    (extractChild toLowercase b sourceFile (localClassNames toLowercase root))))

/-! ## What a module declares -/

def declared (decl : SyntaxTree source) : List Declaration :=
  if kind decl ∈ ["function_declaration", "generator_function_declaration"] then
    ((lowerName toLowercase decl).map .function).toList
  else if kind decl = "class_declaration" then
    ((lowerName toLowercase decl).map fun c => .cls c (heritage toLowercase decl)
      ((methods toLowercase decl).map Prod.fst)).toList
  else if kind decl ∈ ["lexical_declaration", "variable_declaration"] then
    (functionVariables toLowercase decl).map fun v => .function v.1
  else []

def childDeclarations (child : SyntaxTree source) : List Declaration :=
  if kind child = "import_statement" then
    ((childByFieldName child "source").map fun sourceNode =>
      .imports (stringContent toLowercase sourceNode)).toList
  else if kind child = "export_statement" then
    (childByFieldName child "declaration").elim [] (declared toLowercase)
  else declared toLowercase child

def declarations (root : SyntaxTree source) : List Declaration :=
  (namedChildren root).flatMap (childDeclarations toLowercase)

variable {toLowercase b sourceFile}

theorem emits_extractDecl (localClasses : List String) (decl : SyntaxTree source) :
    Emits b sourceFile localClasses (declared toLowercase decl)
      (extractDecl toLowercase b sourceFile localClasses decl) := by
  unfold extractDecl declared
  split
  next =>
    unfold extractToplevelFn
    cases lowerName toLowercase decl with
    | none => exact emits_empty
    | some fnLower => exact emits_function fnLower decl
  next =>
    split
    next =>
      unfold extractClass
      cases lowerName toLowercase decl with
      | none => exact emits_empty
      | some c => exact emits_class c decl _ _
    next =>
      split
      next =>
        rw [← List.flatMap_singleton' (List.map _ _), List.flatMap_map]
        exact emits_concat fun v _ => emits_function v.1 v.2
      next => exact emits_empty

theorem emits_extractChild (localClasses : List String) (child : SyntaxTree source) :
    Emits b sourceFile localClasses (childDeclarations toLowercase child)
      (extractChild toLowercase b sourceFile localClasses child) := by
  unfold extractChild childDeclarations
  split
  next =>
    unfold extractImport
    cases childByFieldName child "source" with
    | none => exact emits_empty
    | some sourceNode => exact emits_import _
  next =>
    split
    next =>
      unfold extractExport
      cases childByFieldName child "declaration" with
      | none => exact emits_empty
      | some decl => exact emits_extractDecl _ decl
    next => exact emits_extractDecl _ child

theorem classNames_declared (decl : SyntaxTree source) :
    classNames (declared toLowercase decl) =
      (if kind decl = "class_declaration" then lowerName toLowercase decl else none).toList := by
  unfold declared
  split
  next hfn =>
    have hclass : kind decl ≠ "class_declaration" := fun h => by simp [h] at hfn
    rw [if_neg hclass]
    cases lowerName toLowercase decl <;> rfl
  next =>
    split
    next => cases lowerName toLowercase decl <;> rfl
    next =>
      split
      next =>
        rw [classNames, List.filterMap_map]
        exact List.filterMap_eq_nil_iff.mpr fun _ _ => rfl
      next => rfl

theorem classNames_childDeclarations (child : SyntaxTree source) :
    classNames (childDeclarations toLowercase child) =
      (localClassName toLowercase child).toList := by
  unfold childDeclarations localClassName
  split
  next himport =>
    have hclass : kind child ≠ "class_declaration" := fun h => by simp [h] at himport
    have hexport : kind child ≠ "export_statement" := fun h => by simp [h] at himport
    rw [if_neg hclass, if_neg hexport]
    cases childByFieldName child "source" <;> rfl
  next =>
    split
    next hexport =>
      have hclass : kind child ≠ "class_declaration" := fun h => by simp [h] at hexport
      rw [if_neg hclass]
      cases childByFieldName child "declaration" with
      | none => rfl
      | some decl => exact classNames_declared decl
    next => exact classNames_declared child

theorem classNames_declarations (root : SyntaxTree source) :
    classNames (declarations toLowercase root) = localClassNames toLowercase root := by
  rw [classNames, declarations, List.filterMap_flatMap, localClassNames,
    List.filterMap_eq_flatMap_toList]
  exact congrArg (fun f => List.flatMap f _) (funext classNames_childDeclarations)

/-- What is extracted from a module follows its outline. -/
theorem follows_extractTree (root : SyntaxTree source) :
    (extractTree toLowercase b sourceFile root).Follows
      (outline b (declarations toLowercase root)) := by
  refine Emits.follows ?_
  rw [classNames_declarations]
  exact emits_concat fun child _ => emits_extractChild _ child

theorem comesFrom_extractTree (root : SyntaxTree source) :
    (extractTree toLowercase b sourceFile root).ComesFrom sourceFile := by
  refine ComesFrom.append (fun n hn => List.mem_singleton.mp hn ▸ rfl) ?_
  exact (emits_concat fun child _ => emits_extractChild _ child).comesFrom

end JsExtractor

end HabitatGraph
