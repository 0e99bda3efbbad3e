import Mathlib.Data.List.Basic

/-! # Trees with any number of children

A traversal hands a context down and an accumulator along. What reaches a node is
decided by its ancestors alone, so a traversal is a fold over the nodes in pre-order,
each with the path that leads to it.
-/

/-- A label and the subtrees below it. -/
inductive RoseTree (α : Type*)
  | node (label : α) (children : List (RoseTree α))

namespace RoseTree

variable {α σ γ : Type*}

def label : RoseTree α → α
  | node label _ => label

def children : RoseTree α → List (RoseTree α)
  | node _ children => children

@[simp] theorem label_node (label : α) (children : List (RoseTree α)) :
    (node label children).label = label := rfl

@[simp] theorem children_node (label : α) (children : List (RoseTree α)) :
    (node label children).children = children := rfl

section Visits

-- Children whose label fails `visited` are left out with all that is below them.
variable (visited : α → Bool)

mutual
/-- The nodes in pre-order, each with its ancestors from the innermost outwards. -/
def visits (ancestors : List (RoseTree α)) : RoseTree α → List (List (RoseTree α) × RoseTree α)
  | node label children =>
      (ancestors, node label children) :: visitsAll (node label children :: ancestors) children

def visitsAll (ancestors : List (RoseTree α)) :
    List (RoseTree α) → List (List (RoseTree α) × RoseTree α)
  | [] => []
  | child :: rest =>
      (if visited child.label then visits ancestors child else []) ++ visitsAll ancestors rest
end

variable (descend : γ → RoseTree α → γ) (emit : γ → RoseTree α → σ → σ)

mutual
/-- Visit a node, then its children with the context that it leaves them. -/
def traverse (context : γ) (acc : σ) : RoseTree α → σ
  | node label children =>
      traverseAll (descend context (node label children))
        (emit context (node label children) acc) children

def traverseAll (context : γ) (acc : σ) : List (RoseTree α) → σ
  | [] => acc
  | child :: rest =>
      traverseAll context (if visited child.label then traverse context acc child else acc) rest
end

/-- The context that arrives below some ancestors. -/
def inherited (context : γ) (ancestors : List (RoseTree α)) : γ :=
  ancestors.foldr (fun ancestor context => descend context ancestor) context

@[simp] theorem inherited_nil (context : γ) : inherited descend context [] = context := rfl

@[simp] theorem inherited_cons (context : γ) (t : RoseTree α) (ancestors : List (RoseTree α)) :
    inherited descend context (t :: ancestors) =
      descend (inherited descend context ancestors) t := rfl

variable {visited descend emit}

mutual
theorem traverse_eq_foldl_visits (context : γ) (ancestors : List (RoseTree α)) (acc : σ) :
    ∀ t : RoseTree α, traverse visited descend emit (inherited descend context ancestors) acc t =
      (visits visited ancestors t).foldl
        (fun acc visit => emit (inherited descend context visit.1) visit.2 acc) acc
  | node label children => by
      rw [traverse, visits, List.foldl_cons]
      exact traverseAll_eq_foldl_visitsAll context (node label children :: ancestors) _ children

theorem traverseAll_eq_foldl_visitsAll (context : γ) (ancestors : List (RoseTree α)) (acc : σ) :
    ∀ ts : List (RoseTree α),
      traverseAll visited descend emit (inherited descend context ancestors) acc ts =
        (visitsAll visited ancestors ts).foldl
          (fun acc visit => emit (inherited descend context visit.1) visit.2 acc) acc
  | [] => rfl
  | child :: rest => by
      rw [traverseAll, visitsAll, List.foldl_append,
        ← traverseAll_eq_foldl_visitsAll context ancestors _ rest]
      congr 1
      split
      next => exact traverse_eq_foldl_visits context ancestors acc child
      next => rfl
end

end Visits

end RoseTree
