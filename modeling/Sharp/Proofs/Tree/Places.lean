import Sharp.Proofs.Tree.Nodes

/-!
The places below a node: those of the names it introduces and those of its children. Names stand
before the children, so both together are in source order.
-/
namespace Sharp.Node

variable {α β : Type}

/-- The names a node introduces. -/
def names : Node α → List (Ident α)
  | .assign _ name _ | .forLoop _ name _ _ _ _ => [name]
  | .function _ name params _ => name.toList ++ params
  | _ => []

/-- Where the names and children of a node stand, in source order. -/
def parts (node : Node α) : List α :=
  node.names.map Ident.place ++ node.children.map place

theorem names_map (f : α → β) (node : Node α) :
    (map f node).names = node.names.map (Ident.map f) := by
  cases node with
  | ifElse _ _ otherwise => rcases otherwise with _ | ⟨_, _⟩ <;> rfl
  | forLoop _ _ _ _ step _ => cases step <;> rfl
  | returnWith _ value => cases value <;> rfl
  | function _ name _ _ => cases name <;> simp [map, names]
  | _ => rfl

theorem parts_map (f : α → β) (node : Node α) : (map f node).parts = node.parts.map f := by
  simp only [parts, names_map, children_map, List.map_append, List.map_map]
  exact congrArg _ (List.map_congr_left fun child _ => place_map f child)

/-- Where a tree is carried to depends on the places in it alone. -/
theorem map_congr {f g : α → β} {node : Node α}
    (agree : ∀ inner ∈ node.nodes,
      ∀ place ∈ inner.place :: inner.names.map Ident.place, f place = g place) :
    map f node = map g node := by
  induction node using induction_on_children with
  | inherits node ih =>
    rw [nodes_eq, List.forall_mem_cons, List.forall_mem_flatMap] at agree
    obtain ⟨own, below⟩ := agree
    obtain ⟨here, named⟩ := List.forall_mem_cons.1 own
    rw [List.forall_mem_map] at named
    have inside (child) (isChild : child ∈ node.children) : map f child = map g child :=
      ih child isChild (below child isChild)
    have ident (name) (isName : name ∈ node.names) : name.map f = name.map g :=
      congrArg (Ident.mk name.name) (named name isName)
    clear ih own below named
    cases node with
    | list place items =>
      simp only [map_list, show f place = g place from here]
      exact congrArg _ (List.map_congr_left inside)
    | block place statements =>
      simp only [map_block, show f place = g place from here]
      exact congrArg _ (List.map_congr_left inside)
    | call place callee args =>
      obtain ⟨first, rest⟩ := List.forall_mem_cons.1 inside
      simp only [map_call, first, show f place = g place from here]
      exact congrArg _ (List.map_congr_left rest)
    | ifElse place clauses otherwise =>
      have within (clause) (among : clause ∈ clauses) :
          Clause.map (map f) clause = Clause.map (map g) clause := by
        have both (child) (which : child ∈ [clause.condition, clause.body.node]) :=
          inside child (List.mem_append_left _ (List.mem_flatMap.2 ⟨clause, among, which⟩))
        simp [Clause.map, Body.map, both]
      have last : otherwise.map (Body.map (map f)) = otherwise.map (Body.map (map g)) := by
        cases otherwise with
        | none => rfl
        | some body => simp [Body.map, inside body.node (by simp [children])]
      simp only [map_ifElse, last, show f place = g place from here]
      exact congrArg (Node.ifElse _ · _) (List.map_congr_left within)
    | forLoop place name start stop step body =>
      cases step <;> simp_all [map_forLoop, children, names, Body.map, Node.place]
    | returnWith place value => cases value <;> simp_all [map_returnWith, children, Node.place]
    | function place name params body =>
      cases name <;> simp_all [map, children, names, Node.place]
    | _ => simp_all [map, children, names, Node.place]

end Sharp.Node
