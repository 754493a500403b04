import Mathlib.Data.List.Basic
import Sharp.Tree.Basic

/-!
The nodes of a tree: a node comes before its children, and those are in source order. What a tree
says as a whole is gathered from its nodes: the literals and names in it, its bodies, and the
returns that take no value along. Without annotations a tree is its mere shape.
-/
namespace Sharp

def Body.map {ν μ : Type} (f : ν → μ) (body : Body ν) : Body μ := ⟨f body.node, body.isBlock⟩

@[simp] theorem Body.map_isBlock {ν μ : Type} (f : ν → μ) (body : Body ν) :
    (body.map f).isBlock = body.isBlock := rfl

def Clause.map {ν μ : Type} (f : ν → μ) (clause : Clause ν) : Clause μ :=
  ⟨f clause.condition, clause.body.map f⟩

abbrev Shape := Node Unit

namespace Node

variable {α β : Type}

def children : Node α → List (Node α)
  | .int _ _ | .float _ _ | .string _ _ | .access _ _ | .continueLoop _ | .breakLoop _ => []
  | .list _ items => items
  | .assign _ _ value => [value]
  | .binary _ _ left right => [left, right]
  | .unary _ _ operand => [operand]
  | .ifElse _ clauses otherwise =>
    clauses.flatMap (fun clause => [clause.condition, clause.body.node]) ++
      (otherwise.map Body.node).toList
  | .forLoop _ _ start stop step body => start :: stop :: (step.toList ++ [body.node])
  | .whileLoop _ condition body => [condition, body.node]
  | .function _ _ _ body => [body.node]
  | .call _ callee args => callee :: args
  | .returnWith _ value => value.toList
  | .block _ statements => statements

mutual

/-- A node and all nodes below it. -/
def nodes (node : Node α) : List (Node α) :=
  node ::
    match node with
    | .int _ _ | .float _ _ | .string _ _ | .access _ _ | .continueLoop _ | .breakLoop _ => []
    | .list _ items => nodesAll items
    | .assign _ _ value => nodes value
    | .binary _ _ left right => nodes left ++ nodes right
    | .unary _ _ operand => nodes operand
    | .ifElse _ clauses otherwise =>
      nodesClauses clauses ++
        (match otherwise with
          | none => []
          | some ⟨node, _⟩ => nodes node)
    | .forLoop _ _ start stop step ⟨node, _⟩ =>
      nodes start ++ nodes stop ++
        (match step with
          | none => []
          | some stride => nodes stride) ++ nodes node
    | .whileLoop _ condition ⟨node, _⟩ => nodes condition ++ nodes node
    | .function _ _ _ ⟨node, _⟩ => nodes node
    | .call _ callee args => nodes callee ++ nodesAll args
    | .returnWith _ value =>
      match value with
      | none => []
      | some node => nodes node
    | .block _ statements => nodesAll statements
termination_by structural node

def nodesAll : List (Node α) → List (Node α)
  | [] => []
  | node :: rest => nodes node ++ nodesAll rest
termination_by structural ts => ts

def nodesClauses : List (Clause (Node α)) → List (Node α)
  | [] => []
  | ⟨condition, ⟨node, _⟩⟩ :: rest => nodes condition ++ nodes node ++ nodesClauses rest
termination_by structural cs => cs

end

theorem nodesAll_eq (trees : List (Node α)) : nodesAll trees = trees.flatMap nodes := by
  induction trees with
  | nil => rfl
  | cons tree rest ih => exact congrArg (nodes tree ++ ·) ih

theorem nodesClauses_eq (clauses : List (Clause (Node α))) :
    nodesClauses clauses =
      (clauses.flatMap fun clause => [clause.condition, clause.body.node]).flatMap nodes := by
  induction clauses with
  | nil => rfl
  | cons clause rest ih =>
    obtain ⟨condition, ⟨node, isBlock⟩⟩ := clause
    change nodes condition ++ nodes node ++ nodesClauses rest = _
    simp [ih]

theorem nodes_eq (node : Node α) : node.nodes = node :: node.children.flatMap nodes := by
  cases node with
  | ifElse _ clauses otherwise =>
    rcases otherwise with _ | ⟨last, _⟩ <;> simp [nodes, children, nodesClauses_eq]
  | forLoop _ _ start stop step body =>
    rcases step with _ | stride <;> obtain ⟨inner, _⟩ := body <;> simp [nodes, children]
  | returnWith _ value => rcases value with _ | inner <;> simp [nodes, children]
  | whileLoop _ condition body => simp [nodes, children]
  | function _ _ _ body => simp [nodes, children]
  | _ => simp [nodes, children, nodesAll_eq]

mutual

/-- The number of steps down to the deepest node; a node without children has none below it. -/
def height (node : Node α) : Nat :=
  match node with
  | .int _ _ | .float _ _ | .string _ _ | .access _ _ | .continueLoop _ | .breakLoop _ => 0
  | .list _ items => heightAll items
  | .assign _ _ value => height value + 1
  | .binary _ _ left right => max (height left + 1) (height right + 1)
  | .unary _ _ operand => height operand + 1
  | .ifElse _ clauses otherwise =>
    max (heightClauses clauses)
      (match otherwise with
        | none => 0
        | some ⟨node, _⟩ => height node + 1)
  | .forLoop _ _ start stop step ⟨node, _⟩ =>
    max (max (height start + 1) (height stop + 1))
      (max
        (match step with
          | none => 0
          | some stride => height stride + 1)
        (height node + 1))
  | .whileLoop _ condition ⟨node, _⟩ => max (height condition + 1) (height node + 1)
  | .function _ _ _ ⟨node, _⟩ => height node + 1
  | .call _ callee args => max (height callee + 1) (heightAll args)
  | .returnWith _ value =>
    match value with
    | none => 0
    | some node => height node + 1
  | .block _ statements => heightAll statements
termination_by structural node

def heightAll : List (Node α) → Nat
  | [] => 0
  | node :: rest => max (height node + 1) (heightAll rest)
termination_by structural ts => ts

def heightClauses : List (Clause (Node α)) → Nat
  | [] => 0
  | ⟨condition, ⟨node, _⟩⟩ :: rest =>
    max (max (height condition + 1) (height node + 1)) (heightClauses rest)
termination_by structural cs => cs

end

theorem height_lt_heightAll {trees : List (Node α)} {tree : Node α} (among : tree ∈ trees) :
    tree.height < heightAll trees := by
  induction trees with
  | nil => simp at among
  | cons first rest ih =>
    change tree.height < max (first.height + 1) (heightAll rest)
    rcases List.mem_cons.1 among with rfl | later
    · omega
    · have below := ih later
      omega

theorem height_lt_heightClauses {clauses : List (Clause (Node α))} {clause : Clause (Node α)}
    (among : clause ∈ clauses) :
    clause.condition.height < heightClauses clauses ∧
      clause.body.node.height < heightClauses clauses := by
  induction clauses with
  | nil => simp at among
  | cons first rest ih =>
    obtain ⟨condition, ⟨node, isBlock⟩⟩ := first
    have whole : heightClauses (⟨condition, ⟨node, isBlock⟩⟩ :: rest) =
        max (max (condition.height + 1) (node.height + 1)) (heightClauses rest) := rfl
    rcases List.mem_cons.1 among with rfl | later
    · constructor <;> simp only [whole] <;> omega
    · have below := ih later
      omega

theorem height_lt_of_child {node child : Node α} (isChild : child ∈ node.children) :
    child.height < node.height := by
  cases node with
  | list _ items | block _ items =>
    rw [height]
    exact height_lt_heightAll isChild
  | call _ callee args =>
    rw [height]
    rcases List.mem_cons.1 isChild with rfl | later
    · omega
    · have below := height_lt_heightAll later
      omega
  | ifElse _ clauses otherwise =>
    simp only [children, List.mem_append, List.mem_flatMap, List.mem_cons, List.not_mem_nil,
      or_false, Option.mem_toList, Option.map_eq_some_iff] at isChild
    rcases isChild with ⟨clause, among, which⟩ | ⟨⟨node, isBlock⟩, rfl, rfl⟩
    · have below := height_lt_heightClauses among
      cases otherwise <;> simp only [height] <;> rcases which with rfl | rfl <;> omega
    · simp only [height]
      omega
  | forLoop _ _ start stop step body =>
    obtain ⟨node, isBlock⟩ := body
    simp only [children, List.mem_cons, List.mem_append, List.not_mem_nil, or_false,
      Option.mem_toList] at isChild
    rcases isChild with rfl | rfl | stepping | rfl
    · cases step <;> simp only [height] <;> omega
    · cases step <;> simp only [height] <;> omega
    · subst stepping
      simp only [height]
      omega
    · cases step <;> simp only [height] <;> omega
  | whileLoop _ condition body =>
    obtain ⟨node, isBlock⟩ := body
    simp only [children, List.mem_cons, List.not_mem_nil, or_false] at isChild
    rw [height]
    rcases isChild with rfl | rfl <;> omega
  | returnWith _ value =>
    obtain rfl : value = some child := by simpa [children] using isChild
    simp only [height]
    omega
  | binary _ _ left right =>
    simp only [children, List.mem_cons, List.not_mem_nil, or_false] at isChild
    rw [height]
    rcases isChild with rfl | rfl <;> omega
  | assign _ _ value | unary _ _ value =>
    obtain rfl : child = value := by simpa [children] using isChild
    rw [height]
    omega
  | function _ _ _ body =>
    obtain rfl : child = body.node := by simpa [children] using isChild
    rw [height]
    omega
  | _ => simp [children] at isChild

/-- What a node inherits from its children holds of every node. -/
theorem induction_on_children {motive : Node α → Prop}
    (inherits : ∀ node, (∀ child ∈ node.children, motive child) → motive node) (node : Node α) :
    motive node := by
  induction tall : node.height using Nat.strongRecOn generalizing node with
  | ind n ih =>
    exact inherits node fun child isChild => ih _ (tall ▸ height_lt_of_child isChild) child rfl

/-- What is gathered from a tree is what its root has to it and what its children have. -/
theorem flatMap_nodes {γ : Type} (own : Node α → List γ) (node : Node α) :
    node.nodes.flatMap own =
      own node ++ node.children.flatMap fun child => child.nodes.flatMap own := by
  rw [nodes_eq, List.flatMap_cons, List.flatMap_assoc]

/-- The literal or names a node itself consists of, as tokens. -/
def ownLeaves : Node α → List TokenKind
  | .int _ value => [.int value]
  | .float _ value => [.float value]
  | .string _ value => [.string value]
  | .access _ name => [.identifier name]
  | .assign _ name _ | .forLoop _ name _ _ _ _ => [.identifier name.name]
  | .function _ name params _ =>
    (name.toList ++ params).map fun name => .identifier name.name
  | _ => []

/-- Literals and names from left to right. -/
def leaves (node : Node α) : List TokenKind := node.nodes.flatMap ownLeaves

theorem leaves_eq (node : Node α) :
    node.leaves = node.ownLeaves ++ node.children.flatMap leaves :=
  flatMap_nodes ownLeaves node

def ownBodies : Node α → List (Body (Node α))
  | .ifElse _ clauses otherwise => clauses.map Clause.body ++ otherwise.toList
  | .forLoop _ _ _ _ _ body | .whileLoop _ _ body | .function _ _ _ body => [body]
  | _ => []

def bodies (node : Node α) : List (Body (Node α)) := node.nodes.flatMap ownBodies

theorem bodies_eq (node : Node α) :
    node.bodies = node.ownBodies ++ node.children.flatMap bodies :=
  flatMap_nodes ownBodies node

def ownBareReturns : Node α → List α
  | .returnWith place none => [place]
  | _ => []

/-- Where the returns without a value stand. -/
def bareReturns (node : Node α) : List α := node.nodes.flatMap ownBareReturns

theorem bareReturns_eq (node : Node α) :
    node.bareReturns = node.ownBareReturns ++ node.children.flatMap bareReturns :=
  flatMap_nodes ownBareReturns node

def ownReturns : Node α → List (α × Bool)
  | .returnWith place value => [(place, value.isNone)]
  | _ => []

/-- Where the returns stand, and whether each of them goes without a value. -/
def returns (node : Node α) : List (α × Bool) := node.nodes.flatMap ownReturns

theorem returns_eq (node : Node α) :
    node.returns = node.ownReturns ++ node.children.flatMap returns :=
  flatMap_nodes ownReturns node

theorem mem_bareReturns {node : Node α} {place : α} :
    place ∈ node.bareReturns ↔ (place, true) ∈ node.returns := by
  have own (node : Node α) : place ∈ node.ownBareReturns ↔ (place, true) ∈ node.ownReturns := by
    cases node with
    | returnWith _ value => cases value <;> simp [ownBareReturns, ownReturns]
    | _ => simp [ownBareReturns, ownReturns]
  simp only [bareReturns, returns, List.mem_flatMap, own]

def erase (node : Node α) : Shape := node.map fun _ => ()

theorem mapClauses_eq (f : α → β) (clauses : List (Clause (Node α))) :
    mapClauses f clauses = clauses.map (Clause.map (map f)) := by
  induction clauses with
  | nil => rfl
  | cons clause rest ih =>
    obtain ⟨condition, ⟨node, isBlock⟩⟩ := clause
    exact congrArg _ ih

section Map

variable (f : α → β) (node : Node α)

theorem map_list (place : α) (items : List (Node α)) :
    map f (.list place items) = .list (f place) (items.map (map f)) :=
  congrArg _ (mapAll_eq f items)

theorem map_block (place : α) (statements : List (Node α)) :
    map f (.block place statements) = .block (f place) (statements.map (map f)) :=
  congrArg _ (mapAll_eq f statements)

theorem map_call (place : α) (callee : Node α) (args : List (Node α)) :
    map f (.call place callee args) = .call (f place) (map f callee) (args.map (map f)) :=
  congrArg _ (mapAll_eq f args)

theorem map_ifElse (place : α) (clauses : List (Clause (Node α)))
    (last : Option (Body (Node α))) :
    map f (.ifElse place clauses last) =
      .ifElse (f place) (clauses.map (Clause.map (map f))) (last.map (Body.map (map f))) := by
  rcases last with _ | ⟨node, isBlock⟩ <;>
    exact congrArg (Node.ifElse _ · _) (mapClauses_eq f clauses)

theorem map_forLoop (place : α) (name : Ident α) (start stop : Node α) (step : Option (Node α))
    (body : Body (Node α)) :
    map f (.forLoop place name start stop step body) =
      .forLoop (f place) (name.map f) (map f start) (map f stop) (step.map (map f))
        (body.map (map f)) := by
  cases step <;> rfl

theorem map_returnWith (place : α) (value : Option (Node α)) :
    map f (.returnWith place value) = .returnWith (f place) (value.map (map f)) := by
  cases value <;> rfl

theorem map_map {γ : Type} (g : β → γ) : map g (map f node) = map (g ∘ f) node := by
  induction node using induction_on_children with
  | inherits node ih =>
    cases node with
    | list _ items =>
      simp only [map_list, List.map_map]
      exact congrArg _ (List.map_congr_left ih)
    | block _ statements =>
      simp only [map_block, List.map_map]
      exact congrArg _ (List.map_congr_left ih)
    | call _ callee args =>
      simp only [map_call, List.map_map, ih callee List.mem_cons_self]
      exact congrArg _ (List.map_congr_left fun arg among => ih arg (List.mem_cons_of_mem _ among))
    | ifElse _ clauses otherwise =>
      have within (clause) (among : clause ∈ clauses) :
          Clause.map (map g) (Clause.map (map f) clause) = Clause.map (map (g ∘ f)) clause := by
        have below (child) (which : child ∈ [clause.condition, clause.body.node]) :=
          ih child (List.mem_append_left _ (List.mem_flatMap.2 ⟨clause, among, which⟩))
        simp [Clause.map, Body.map, below]
      rcases otherwise with _ | last
      · simpa [map_ifElse] using within
      · have same : map g (map f last.node) = map (g ∘ f) last.node :=
          ih last.node (by simp [children])
        simpa [map_ifElse, Body.map, same] using within
    | forLoop _ _ start stop step body =>
      cases step <;> simp_all [map_forLoop, children, Body.map, Ident.map]
    | returnWith _ value => cases value <;> simp_all [map_returnWith, children]
    | function _ name _ _ => cases name <;> simp_all [map, children, Ident.map]
    | _ => simp_all [map, children, Ident.map]

theorem children_map : (map f node).children = node.children.map (map f) := by
  cases node with
  | ifElse _ clauses otherwise =>
    rcases otherwise with _ | ⟨last, _⟩ <;>
      simp [map, children, mapClauses_eq, List.flatMap_map, List.map_flatMap, Clause.map, Body.map]
  | forLoop _ _ start stop step body => cases step <;> simp [map, children]
  | returnWith _ value => cases value <;> simp [map, children]
  | _ => simp [map, children, mapAll_eq]

theorem nodes_map : (map f node).nodes = node.nodes.map (map f) := by
  induction node using induction_on_children with
  | inherits node ih =>
    rw [nodes_eq, nodes_eq node, children_map, List.map_cons, List.flatMap_map, List.map_flatMap]
    exact congrArg _ (List.flatMap_congr ih)

theorem ownLeaves_map : (map f node).ownLeaves = node.ownLeaves := by
  cases node with
  | ifElse _ _ otherwise => rcases otherwise with _ | ⟨_, _⟩ <;> rfl
  | forLoop _ _ _ _ step _ => cases step <;> rfl
  | returnWith _ value => cases value <;> rfl
  | function _ name _ _ => cases name <;> simp [map, ownLeaves, Ident.map]
  | _ => rfl

theorem leaves_map : (map f node).leaves = node.leaves := by
  simp only [leaves, nodes_map, List.flatMap_map, ownLeaves_map]

theorem ownBodies_map : (map f node).ownBodies = node.ownBodies.map (Body.map (map f)) := by
  cases node with
  | ifElse _ clauses otherwise =>
    rcases otherwise with _ | ⟨last, _⟩ <;>
      simp [map, ownBodies, mapClauses_eq, Clause.map, Body.map]
  | forLoop _ _ _ _ step _ => cases step <;> rfl
  | returnWith _ value => cases value <;> rfl
  | _ => rfl

theorem ownReturns_map : (map f node).ownReturns = node.ownReturns.map (Prod.map f id) := by
  cases node with
  | ifElse _ _ otherwise => rcases otherwise with _ | ⟨_, _⟩ <;> rfl
  | forLoop _ _ _ _ step _ => cases step <;> rfl
  | returnWith _ value => cases value <;> rfl
  | _ => rfl

theorem returns_map : (map f node).returns = node.returns.map (Prod.map f id) := by
  simp only [returns, nodes_map, List.flatMap_map, List.map_flatMap, ownReturns_map]

theorem bodies_map : (map f node).bodies = node.bodies.map (Body.map (map f)) := by
  simp only [bodies, nodes_map, List.flatMap_map, List.map_flatMap, ownBodies_map]

end Map

section Erase

variable {place : α} {name : Ident α}

@[simp] theorem erase_int (value : Int) : (int place value).erase = int () value := rfl

@[simp] theorem erase_float (value : Float) : (float place value).erase = float () value := rfl

@[simp] theorem erase_string (value : String) : (string place value).erase = string () value := rfl

@[simp] theorem erase_access (text : String) : (access place text).erase = access () text := rfl

@[simp] theorem erase_list (items : List (Node α)) :
    (list place items).erase = list () (items.map erase) :=
  map_list _ place items

@[simp] theorem erase_assign (value : Node α) :
    (assign place name value).erase = assign () ⟨name.name, ()⟩ value.erase := rfl

@[simp] theorem erase_binary (op : BinaryOp) (left right : Node α) :
    (binary place op left right).erase = binary () op left.erase right.erase := rfl

@[simp] theorem erase_unary (op : UnaryOp) (operand : Node α) :
    (unary place op operand).erase = unary () op operand.erase := rfl

@[simp] theorem erase_ifElse (clauses : List (Clause (Node α))) (last : Option (Body (Node α))) :
    (ifElse place clauses last).erase =
      ifElse () (clauses.map (Clause.map erase)) (last.map (Body.map erase)) :=
  map_ifElse _ place clauses last

@[simp] theorem erase_forLoop (start stop : Node α) (step : Option (Node α))
    (body : Body (Node α)) :
    (forLoop place name start stop step body).erase =
      forLoop () ⟨name.name, ()⟩ start.erase stop.erase (step.map erase) (body.map erase) :=
  map_forLoop _ place name start stop step body

@[simp] theorem erase_whileLoop (condition : Node α) (body : Body (Node α)) :
    (whileLoop place condition body).erase = whileLoop () condition.erase (body.map erase) := rfl

@[simp] theorem erase_function (title : Option (Ident α)) (params : List (Ident α))
    (body : Body (Node α)) :
    (function place title params body).erase =
      function () (title.map (Ident.map fun _ => ())) (params.map (Ident.map fun _ => ()))
        (body.map erase) := rfl

@[simp] theorem erase_call (callee : Node α) (args : List (Node α)) :
    (call place callee args).erase = call () callee.erase (args.map erase) :=
  map_call _ place callee args

@[simp] theorem erase_returnWith (value : Option (Node α)) :
    (returnWith place value).erase = returnWith () (value.map erase) :=
  map_returnWith _ place value

@[simp] theorem erase_continueLoop : (continueLoop place).erase = continueLoop () := rfl

@[simp] theorem erase_breakLoop : (breakLoop place).erase = breakLoop () := rfl

@[simp] theorem erase_block (statements : List (Node α)) :
    (block place statements).erase = block () (statements.map erase) :=
  map_block _ place statements

theorem erase_map (f : α → β) (node : Node α) : (map f node).erase = node.erase :=
  map_map f node (fun _ => ())

end Erase

end Node

end Sharp
