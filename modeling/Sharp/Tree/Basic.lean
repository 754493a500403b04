import Sharp.Tree.Operator

/-!
Program trees. Every node and every name carries an annotation: the tokens it was read from, its
span in the text, or nothing at all. A body is either a block of its own lines or a single
statement on the line of its clause.
-/
namespace Sharp

structure Ident (α : Type) where
  name : String
  place : α
deriving DecidableEq, BEq

structure Body (ν : Type) where
  node : ν
  isBlock : Bool

structure Clause (ν : Type) where
  condition : ν
  body : Body ν

inductive Node (α : Type)
  | int (place : α) (value : Int)
  | float (place : α) (value : Float)
  | string (place : α) (value : String)
  | list (place : α) (items : List (Node α))
  | access (place : α) (name : String)
  | assign (place : α) (name : Ident α) (value : Node α)
  | binary (place : α) (op : BinaryOp) (left right : Node α)
  | unary (place : α) (op : UnaryOp) (operand : Node α)
  | ifElse (place : α) (clauses : List (Clause (Node α))) (otherwise : Option (Body (Node α)))
  | forLoop (place : α) (name : Ident α) (start stop : Node α) (step : Option (Node α))
      (body : Body (Node α))
  | whileLoop (place : α) (condition : Node α) (body : Body (Node α))
  | function (place : α) (name : Option (Ident α)) (params : List (Ident α))
      (body : Body (Node α))
  | call (place : α) (callee : Node α) (args : List (Node α))
  | returnWith (place : α) (value : Option (Node α))
  | continueLoop (place : α)
  | breakLoop (place : α)
  | block (place : α) (statements : List (Node α))

def Ident.map {α β : Type} (f : α → β) (name : Ident α) : Ident β := ⟨name.name, f name.place⟩

namespace Node

variable {α β : Type}

def place : Node α → α
  | .int p _ | .float p _ | .string p _ | .list p _ | .access p _ | .assign p _ _
  | .binary p _ _ _ | .unary p _ _ | .ifElse p _ _ | .forLoop p _ _ _ _ _ | .whileLoop p _ _
  | .function p _ _ _ | .call p _ _ | .returnWith p _ | .continueLoop p | .breakLoop p
  | .block p _ => p

mutual

/-- Changes every annotation and nothing else. -/
def map (f : α → β) : Node α → Node β
  | .int p value => .int (f p) value
  | .float p value => .float (f p) value
  | .string p value => .string (f p) value
  | .list p items => .list (f p) (mapAll f items)
  | .access p name => .access (f p) name
  | .assign p name value => .assign (f p) (name.map f) (map f value)
  | .binary p op left right => .binary (f p) op (map f left) (map f right)
  | .unary p op operand => .unary (f p) op (map f operand)
  | .ifElse p clauses otherwise =>
    .ifElse (f p) (mapClauses f clauses)
      (match otherwise with
        | none => none
        | some ⟨node, isBlock⟩ => some ⟨map f node, isBlock⟩)
  | .forLoop p name start stop step ⟨node, isBlock⟩ =>
    .forLoop (f p) (name.map f) (map f start) (map f stop)
      (match step with
        | none => none
        | some stride => some (map f stride))
      ⟨map f node, isBlock⟩
  | .whileLoop p condition ⟨node, isBlock⟩ =>
    .whileLoop (f p) (map f condition) ⟨map f node, isBlock⟩
  | .function p name params ⟨node, isBlock⟩ =>
    .function (f p) (name.map (Ident.map f)) (params.map (Ident.map f)) ⟨map f node, isBlock⟩
  | .call p callee args => .call (f p) (map f callee) (mapAll f args)
  | .returnWith p value =>
    .returnWith (f p)
      (match value with
        | none => none
        | some node => some (map f node))
  | .continueLoop p => .continueLoop (f p)
  | .breakLoop p => .breakLoop (f p)
  | .block p statements => .block (f p) (mapAll f statements)
termination_by structural t => t

def mapAll (f : α → β) : List (Node α) → List (Node β)
  | [] => []
  | node :: rest => map f node :: mapAll f rest
termination_by structural ts => ts

def mapClauses (f : α → β) : List (Clause (Node α)) → List (Clause (Node β))
  | [] => []
  | ⟨condition, ⟨node, isBlock⟩⟩ :: rest =>
    ⟨map f condition, ⟨map f node, isBlock⟩⟩ :: mapClauses f rest
termination_by structural cs => cs

end

theorem mapAll_eq (f : α → β) (nodes : List (Node α)) : mapAll f nodes = nodes.map (map f) := by
  induction nodes with
  | nil => rfl
  | cons node rest ih => exact congrArg _ ih

theorem place_map (f : α → β) (node : Node α) : (map f node).place = f node.place := by
  cases node with
  | ifElse _ _ otherwise => rcases otherwise with _ | ⟨_, _⟩ <;> rfl
  | forLoop _ _ _ _ step _ => cases step <;> rfl
  | returnWith _ value => cases value <;> rfl
  | _ => rfl

/-- How many statements a program has at its top. -/
def statementCount : Node α → Nat
  | .block _ statements => statements.length
  | _ => 1

end Node

end Sharp
