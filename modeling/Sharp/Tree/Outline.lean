import Sharp.Tree.Basic

/-!
Outlines: the nodes of a tree in reading order, each with its depth, the part it plays for its
parent, what it says itself and its annotation. Two trees with one outline are the same tree, so
the test `==` compares trees by their outlines, and floats in them as numbers.
-/
namespace Sharp

inductive Role
  | root | item | value | left | right | operand | condition | body | otherwise
  | start | stop | step | callee | argument | statement
deriving DecidableEq

/-- What a node says beside its children. -/
inductive Label (α : Type)
  | int (value : Int)
  | float (value : Float)
  | string (value : String)
  | list (count : Nat)
  | access (name : String)
  | assign (name : Ident α)
  | binary (op : BinaryOp)
  | unary (op : UnaryOp)
  | ifElse (blocks : List Bool) (otherwise : Option Bool)
  | forLoop (name : Ident α) (stepped : Bool) (isBlock : Bool)
  | whileLoop (isBlock : Bool)
  | function (name : Option (Ident α)) (params : List (Ident α)) (isBlock : Bool)
  | call (count : Nat)
  | returnWith (valued : Bool)
  | continueLoop
  | breakLoop
  | block (count : Nat)
deriving BEq

structure OutlineEntry (α : Type) where
  depth : Nat
  role : Role
  label : Label α
  place : α
deriving BEq

namespace Node

variable {α : Type}

def label : Node α → Label α
  | .int _ value => .int value
  | .float _ value => .float value
  | .string _ value => .string value
  | .list _ items => .list items.length
  | .access _ name => .access name
  | .assign _ name _ => .assign name
  | .binary _ op _ _ => .binary op
  | .unary _ op _ => .unary op
  | .ifElse _ clauses otherwise =>
    .ifElse (clauses.map fun c => c.body.isBlock) (otherwise.map Body.isBlock)
  | .forLoop _ name _ _ step body => .forLoop name step.isSome body.isBlock
  | .whileLoop _ _ body => .whileLoop body.isBlock
  | .function _ name params body => .function name params body.isBlock
  | .call _ _ args => .call args.length
  | .returnWith _ value => .returnWith value.isSome
  | .continueLoop _ => .continueLoop
  | .breakLoop _ => .breakLoop
  | .block _ statements => .block statements.length

mutual

/-- The entry of a node and those of the nodes below it. -/
def entry (depth : Nat) (role : Role) (node : Node α) : List (OutlineEntry α) :=
  ⟨depth, role, node.label, node.place⟩ ::
    match node with
    | .int _ _ | .float _ _ | .string _ _ | .access _ _ | .continueLoop _ | .breakLoop _ => []
    | .list _ items => entries (depth + 1) .item items
    | .assign _ _ value => entry (depth + 1) .value value
    | .binary _ _ left right => entry (depth + 1) .left left ++ entry (depth + 1) .right right
    | .unary _ _ operand => entry (depth + 1) .operand operand
    | .ifElse _ clauses otherwise =>
      clauseEntries (depth + 1) clauses ++
        (match otherwise with
          | none => []
          | some ⟨node, _⟩ => entry (depth + 1) .otherwise node)
    | .forLoop _ _ start stop step ⟨node, _⟩ =>
      entry (depth + 1) .start start ++ entry (depth + 1) .stop stop ++
        (match step with
          | none => []
          | some stride => entry (depth + 1) .step stride) ++ entry (depth + 1) .body node
    | .whileLoop _ condition ⟨node, _⟩ =>
      entry (depth + 1) .condition condition ++ entry (depth + 1) .body node
    | .function _ _ _ ⟨node, _⟩ => entry (depth + 1) .body node
    | .call _ callee args => entry (depth + 1) .callee callee ++ entries (depth + 1) .argument args
    | .returnWith _ value =>
      match value with
      | none => []
      | some node => entry (depth + 1) .value node
    | .block _ statements => entries (depth + 1) .statement statements
termination_by structural node

def entries (depth : Nat) (role : Role) : List (Node α) → List (OutlineEntry α)
  | [] => []
  | node :: rest => entry depth role node ++ entries depth role rest
termination_by structural ts => ts

def clauseEntries (depth : Nat) : List (Clause (Node α)) → List (OutlineEntry α)
  | [] => []
  | ⟨condition, ⟨node, _⟩⟩ :: rest =>
    entry depth .condition condition ++ entry depth .body node ++ clauseEntries depth rest
termination_by structural cs => cs

end

def outline (node : Node α) : List (OutlineEntry α) := node.entry 0 .root

instance [BEq α] : BEq (Node α) := ⟨fun a b => a.outline == b.outline⟩

end Node

end Sharp
