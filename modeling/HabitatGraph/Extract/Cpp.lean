import HabitatGraph.Extract.SyntaxTree

/-! # The C++ extractor

A first pass collects the names of all classes of a file, a second one emits nodes and
edges. A base whose name was collected is taken for a class of the file and its id is
qualified with the name of the file. Ids are put together from names in lower case.
-/

namespace HabitatGraph

namespace CppExtractor

open SyntaxTree

section Names

variable {source : List UInt8} (toLowercase : String → String)

def classKinds : List String := ["class_specifier", "struct_specifier"]

/-- The name of a class or struct that has a simple one. -/
def className (node : SyntaxTree source) : Option String :=
  (childByFieldName node "name").bind fun nameNode =>
    if kind nameNode ∈ ["type_identifier", "identifier"] then
      some (toLowercase (textOf nameNode))
    else none

/-- The name of a namespace that has a simple one. -/
def namespaceName (node : SyntaxTree source) : Option String :=
  (childByFieldName node "name").bind fun nameNode =>
    if kind nameNode ∈ ["namespace_identifier", "identifier"] then
      some (toLowercase (textOf nameNode))
    else none

mutual
/-- The first pass: the classes among the named children, and those in the bodies of
classes and namespaces. -/
def collectClassNames : SyntaxTree source → List String
  | .node _ children => collectAll children

def collectAll : List (SyntaxTree source) → List String
  | [] => []
  | child :: rest => (if child.label.named then collectChild child else []) ++ collectAll rest

def collectChild : SyntaxTree source → List String
  | .node label children =>
      if label.kind ∈ classKinds then
        (className toLowercase (.node label children)).toList ++ collectBody children
      else if label.kind = "namespace_definition" then collectBody children
      else []

/-- The pass over the first child in the field `body`. -/
def collectBody : List (SyntaxTree source) → List String
  | [] => []
  | child :: rest =>
      if "body" ∈ child.label.fields then collectClassNames child else collectBody rest
end

mutual
/-- The name at the end of a chain of declarators. Destructors, operators and templates
have none. -/
def extractFnName : SyntaxTree source → Option String
  | .node label children =>
      let node : SyntaxTree source := .node label children
      if label.kind ∈ ["identifier", "field_identifier"] then some (toLowercase (textOf node))
      else if label.kind = "qualified_identifier" then
        (childByFieldName node "name").bind fun nameNode =>
          if kind nameNode ∈ ["identifier", "field_identifier", "type_identifier"] then
            some (toLowercase (textOf nameNode))
          else none
      else if label.kind ∈ ["function_declarator", "pointer_declarator"] then
        declaratorName children
      else if label.kind = "reference_declarator" then
        if children.any fun child => "declarator" ∈ child.label.fields then
          declaratorName children
        else firstNamedName children
      else none

/-- The name of the first child in the field `declarator`. -/
def declaratorName : List (SyntaxTree source) → Option String
  | [] => none
  | child :: rest =>
      if "declarator" ∈ child.label.fields then extractFnName child else declaratorName rest

/-- The name of the first named child. -/
def firstNamedName : List (SyntaxTree source) → Option String
  | [] => none
  | child :: rest => if child.label.named then extractFnName child else firstNamedName rest
end

/-- The name of a base, without what qualifies it. -/
def baseName (node : SyntaxTree source) : Option String :=
  if kind node = "type_identifier" then some (toLowercase (textOf node))
  else if kind node = "qualified_identifier" then
    (childByFieldName node "name").bind fun nameNode =>
      if kind nameNode ∈ ["type_identifier", "identifier", "field_identifier"] then
        some (toLowercase (textOf nameNode))
      else none
  else none

/-- The bases of a clause, each bare or wrapped in a specifier. -/
def extractBaseNames (clause : SyntaxTree source) : List String :=
  (namedChildren clause).filterMap fun child =>
    if kind child = "base_specifier" then
      ((namedChildren child).find? fun inner =>
        kind inner ∈ ["type_identifier", "qualified_identifier"]).bind (baseName toLowercase)
    else baseName toLowercase child

end Names

section Emit

variable {source : List UInt8} (toLowercase : String → String) (b sourceFile : String)

/-- Add a node with an edge to it. -/
def pushItem (result : Extraction) (container label relation : String)
    (node : SyntaxTree source) : Extraction where
  nodes := result.nodes ++ [⟨label, sourceFile, makeSpan node⟩]
  edges := result.edges ++ [⟨container, label, relation, .extracted⟩]

/-- A function becomes a node in its container. -/
def extractFunction (container : String) (node : SyntaxTree source) (result : Extraction) :
    Extraction :=
  match (childByFieldName node "declarator").bind (extractFnName toLowercase) with
  | some fnLower =>
      pushItem sourceFile result container (b ++ "_" ++ fnLower) "contains" node
  | none => result

/-- The methods defined in a class body, without constructors. -/
def extractMethods (c classLabel : String) (body : SyntaxTree source) (result : Extraction) :
    Extraction :=
  (namedChildren body).foldl (fun result child =>
    if kind child ≠ "function_definition" then result
    else match (childByFieldName child "declarator").bind (extractFnName toLowercase) with
      | some methodLower =>
          if methodLower = c then result
          else pushItem sourceFile result classLabel (b ++ "_" ++ c ++ "_" ++ methodLower)
            "method" child
      | none => result) result

/-- The id of a base: qualified with the file when its name was collected. -/
def baseId (localTypes : List String) (baseLower : String) : String :=
  if baseLower ∈ localTypes then b ++ "_" ++ baseLower else baseLower

/-- A class becomes a node in its container, with edges from its bases and to its
methods. -/
def extractClass (localTypes : List String) (container : String) (node : SyntaxTree source)
    (result : Extraction) : Extraction :=
  match className toLowercase node with
  | none => result
  | some c =>
      let classLabel := b ++ "_" ++ c
      (namedChildren node).foldl (fun result child =>
        if kind child = "base_class_clause" then
          { result with edges := result.edges ++
              (extractBaseNames toLowercase child).map fun baseLower =>
                ⟨baseId b localTypes baseLower, classLabel, "inherits", .extracted⟩ }
        else if kind child = "field_declaration_list" then
          extractMethods toLowercase b sourceFile c classLabel child result
        else result)
        (pushItem sourceFile result container classLabel "contains" node)

/-- An include becomes an edge from the file, whatever the container. -/
def extractInclude (node : SyntaxTree source) (result : Extraction) : Extraction :=
  match childByFieldName node "path" with
  | none => result
  | some pathNode =>
      let raw := (textOf pathNode).toList
      let stripped := toLowercase (String.ofList
        (((raw.dropWhile fun ch => ch ∈ ['"', '<']).reverse.dropWhile fun ch =>
          ch ∈ ['"', '>']).reverse))
      if stripped.isEmpty then result
      else { result with edges := result.edges ++ [⟨b, stripped, "imports_from", .extracted⟩] }

mutual
/-- The second pass over one node of a file or of the body of a namespace. -/
def walkNode (localTypes : List String) (container : String) (result : Extraction) :
    SyntaxTree source → Extraction
  | .node label children =>
      let node : SyntaxTree source := .node label children
      if label.kind = "function_definition" then
        extractFunction toLowercase b sourceFile container node result
      else if label.kind ∈ classKinds then
        extractClass toLowercase b sourceFile localTypes container node result
      else if label.kind = "namespace_definition" then
        -- `extract_namespace`: one without a simple name is skipped with its body
        match namespaceName toLowercase node with
        | none => result
        | some nsLower =>
            walkBody localTypes (b ++ "_" ++ nsLower)
              (pushItem sourceFile result container (b ++ "_" ++ nsLower) "contains" node)
              children
      else if label.kind = "preproc_include" then extractInclude toLowercase b node result
      else result

/-- The pass over the children of the first child in the field `body`. -/
def walkBody (localTypes : List String) (container : String) (result : Extraction) :
    List (SyntaxTree source) → Extraction
  | [] => result
  | child :: rest =>
      if "body" ∈ child.label.fields then walkChildren localTypes container result child
      else walkBody localTypes container result rest

def walkChildren (localTypes : List String) (container : String) (result : Extraction) :
    SyntaxTree source → Extraction
  | .node _ children => walkAll localTypes container result children

def walkAll (localTypes : List String) (container : String) (result : Extraction) :
    List (SyntaxTree source) → Extraction
  | [] => result
  | child :: rest =>
      walkAll localTypes container
        (if child.label.named then walkNode localTypes container result child else result) rest
end

/-- Both passes over the tree of a file: the file node is always there. -/
def extractTree (root : SyntaxTree source) : Extraction :=
  walkChildren toLowercase b sourceFile (collectClassNames toLowercase root) b
    ⟨[⟨b, sourceFile, makeSpan root⟩], []⟩ root

end Emit

end CppExtractor

end HabitatGraph
