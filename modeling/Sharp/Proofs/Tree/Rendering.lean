import Sharp.Proofs.Grammar.Derivation

/-!
Trees written down as tokens. Every expression but a literal, a name or a list is put in round
brackets, so what stands beside it cannot take a part of it away. Statements are parted by single
separators; a block has lines of its own and is closed if nothing follows it in its construct. Only
well-formed trees can be read back: blocks stand where lines of their own do, and what steers a run
stands where statements do.
-/
namespace Sharp

open Grammar

namespace Node

/-- What a tree may stand for. -/
inductive Place
  | block | statement | expression
deriving DecidableEq

end Node

/-- A body on the line of its clause is a statement. -/
def Body.place {ν : Type} (body : Body ν) : Node.Place :=
  if body.isBlock then .block else .statement

namespace Node

inductive WellFormed : Place → Shape → Prop
  | block {statements} (some : statements ≠ []) :
      (∀ statement ∈ statements, WellFormed .statement statement) →
      WellFormed .block (.block () statements)
  | bare {shape} : WellFormed .expression shape → WellFormed .statement shape
  | returnWith {value} :
      (∀ shape ∈ value, WellFormed .expression shape) →
      WellFormed .statement (.returnWith () value)
  | continueLoop : WellFormed .statement (.continueLoop ())
  | breakLoop : WellFormed .statement (.breakLoop ())
  | int {value} : WellFormed .expression (.int () value)
  | float {value} : WellFormed .expression (.float () value)
  | string {value} : WellFormed .expression (.string () value)
  | access {name} : WellFormed .expression (.access () name)
  | list {items} :
      (∀ item ∈ items, WellFormed .expression item) → WellFormed .expression (.list () items)
  | assign {name value} :
      WellFormed .expression value → WellFormed .expression (.assign () name value)
  | binary {op left right} :
      WellFormed .expression left → WellFormed .expression right →
      WellFormed .expression (.binary () op left right)
  | unary {op operand} :
      WellFormed .expression operand → WellFormed .expression (.unary () op operand)
  | ifElse {clauses otherwise} (some : clauses ≠ []) :
      (∀ clause ∈ clauses, WellFormed .expression clause.condition) →
      (∀ clause ∈ clauses, WellFormed clause.body.place clause.body.node) →
      (∀ body ∈ otherwise, WellFormed body.place body.node) →
      WellFormed .expression (.ifElse () clauses otherwise)
  | forLoop {name start stop step body} :
      WellFormed .expression start → WellFormed .expression stop →
      (∀ stride ∈ step, WellFormed .expression stride) → WellFormed body.place body.node →
      WellFormed .expression (.forLoop () name start stop step body)
  | whileLoop {condition body} :
      WellFormed .expression condition → WellFormed body.place body.node →
      WellFormed .expression (.whileLoop () condition body)
  | function {name params node} :
      WellFormed .expression node →
      WellFormed .expression (.function () name params ⟨node, false⟩)
  | functionBlock {name params node} :
      WellFormed .block node → WellFormed .expression (.function () name params ⟨node, true⟩)
  | call {callee args} :
      WellFormed .expression callee → (∀ arg ∈ args, WellFormed .expression arg) →
      WellFormed .expression (.call () callee args)

end Node

namespace Grammar

def inBrackets (word : List TokenKind) : List TokenKind :=
  .symbol .openRound :: word ++ [.symbol .closeRound]

/-- A block stands on lines of its own. -/
def inBody (isBlock : Bool) (word : List TokenKind) : List TokenKind :=
  if isBlock then .newline :: word ++ [.newline] else word

def closing (isBlock : Bool) : List TokenKind := if isBlock then [.keyword .end] else []

def commaSeparated (words : List (List TokenKind)) : List TokenKind :=
  List.intercalate [.symbol .comma] words

/-- Whether the last one of some clauses is a block. -/
def lastIsBlock {ν : Type} (clauses : List (Clause ν)) : Bool :=
  clauses.getLast?.any fun last => last.body.isBlock

end Grammar

namespace Node

mutual

def render (shape : Shape) : List TokenKind :=
  match shape with
  | .int _ value => [.int value]
  | .float _ value => [.float value]
  | .string _ value => [.string value]
  | .access _ name => [.identifier name]
  | .list _ items =>
    .symbol .openSquare :: commaSeparated (renderAll items) ++ [.symbol .closeSquare]
  | .assign _ name value =>
    inBrackets (.keyword .var :: .identifier name.name :: .symbol .assign :: render value)
  | .binary _ op left right => inBrackets (render left ++ op.token :: render right)
  | .unary _ op operand => inBrackets (op.token :: render operand)
  | .ifElse _ clauses otherwise =>
    inBrackets (renderClauses .if clauses ++
      match otherwise with
      | none => closing (lastIsBlock clauses)
      | some ⟨node, isBlock⟩ =>
        .keyword .else :: inBody isBlock (render node) ++ closing isBlock)
  | .forLoop _ name start stop step ⟨node, isBlock⟩ =>
    inBrackets (.keyword .for :: .identifier name.name :: .symbol .assign :: render start ++
      .keyword .to :: render stop ++
      (match step with
        | none => []
        | some stride => .keyword .step :: render stride) ++
      .keyword .then :: inBody isBlock (render node) ++ closing isBlock)
  | .whileLoop _ condition ⟨node, isBlock⟩ =>
    inBrackets (.keyword .while :: render condition ++
      .keyword .then :: inBody isBlock (render node) ++ closing isBlock)
  | .function _ name params ⟨node, isBlock⟩ =>
    inBrackets (.keyword .fun :: nameList name.toList ++ .symbol .openRound ::
      nameList params ++ .symbol .closeRound ::
      (if isBlock then inBody true (render node) ++ closing true
        else .symbol .arrow :: render node))
  | .call _ callee args =>
    inBrackets (render callee ++ inBrackets (commaSeparated (renderAll args)))
  | .returnWith _ value =>
    .keyword .return ::
      match value with
      | none => []
      | some node => render node
  | .continueLoop _ => [.keyword .continue]
  | .breakLoop _ => [.keyword .break]
  | .block _ statements => List.intercalate [.newline] (renderAll statements)
termination_by structural shape

def renderAll : List Shape → List (List TokenKind)
  | [] => []
  | shape :: rest => render shape :: renderAll rest
termination_by structural shapes => shapes

/-- The first clause opens with the given word, further ones with `ELIF`. -/
def renderClauses (word : Keyword) : List (Clause Shape) → List TokenKind
  | [] => []
  | ⟨condition, ⟨node, isBlock⟩⟩ :: rest =>
    .keyword word :: render condition ++ .keyword .then :: inBody isBlock (render node) ++
      renderClauses .elif rest
termination_by structural clauses => clauses

end

theorem renderAll_eq (shapes : List Shape) : renderAll shapes = shapes.map render := by
  induction shapes with
  | nil => rfl
  | cons shape rest ih => rw [renderAll, ih, List.map_cons]

/-- Words with a token between them, from the left. -/
theorem intercalate_cons (sep : TokenKind) (word : List TokenKind) (rest : List (List TokenKind)) :
    List.intercalate [sep] (word :: rest) = word ++ rest.flatMap (sep :: ·) := by
  induction rest generalizing word with
  | nil => simp [List.intercalate]
  | cons next rest ih =>
    rw [List.intercalate, List.intersperse_cons_cons, List.flatten_cons, List.flatten_cons,
      ← List.intercalate, ih next]
    simp

theorem renderClauses_cons (word : Keyword) (first : Clause Shape) (rest : List (Clause Shape)) :
    renderClauses word (first :: rest) = (.keyword word :: first.condition.render ++
      .keyword .then :: inBody first.body.isBlock first.body.node.render) ++
        renderClauses .elif rest := rfl

section Final

@[simp] theorem eof_mem_inBrackets {word : List TokenKind} :
    .eof ∈ inBrackets word ↔ .eof ∈ word := by
  simp [inBrackets]

@[simp] theorem eof_mem_inBody {isBlock : Bool} {word : List TokenKind} :
    .eof ∈ inBody isBlock word ↔ .eof ∈ word := by
  cases isBlock <;> simp [inBody]

@[simp] theorem eof_not_mem_closing (isBlock : Bool) : .eof ∉ closing isBlock := by
  cases isBlock <;> simp [closing]

@[simp] theorem eof_not_mem_nameList (names : List (Ident Unit)) : .eof ∉ nameList names := by
  intro among
  rcases mem_nameList among with ⟨name, same⟩ | same <;> cases same

@[simp] theorem eof_ne_binary (op : BinaryOp) : TokenKind.eof ≠ op.token := by
  cases op <;> simp [BinaryOp.token]

@[simp] theorem eof_ne_unary (op : UnaryOp) : TokenKind.eof ≠ op.token := by
  cases op <;> simp [UnaryOp.token]

theorem eof_not_mem_intercalate {sep : TokenKind} (other : sep ≠ .eof) {shapes : List Shape}
    (free : ∀ shape ∈ shapes, .eof ∉ shape.render) :
    .eof ∉ List.intercalate [sep] (renderAll shapes) := by
  rw [renderAll_eq]
  cases shapes with
  | nil => simp [List.intercalate]
  | cons first rest => simp_all [intercalate_cons, eq_comm]

theorem eof_not_mem_renderClauses {word : Keyword} {clauses : List (Clause Shape)}
    (conditions : ∀ clause ∈ clauses, .eof ∉ clause.condition.render)
    (bodies : ∀ clause ∈ clauses, .eof ∉ clause.body.node.render) :
    .eof ∉ renderClauses word clauses := by
  induction clauses generalizing word with
  | nil => simp [renderClauses]
  | cons first rest ih => simp_all [renderClauses_cons]

/-- No rendered tree ends the text. -/
theorem eof_not_mem_render {place : Place} {shape : Shape} (wellFormed : WellFormed place shape) :
    .eof ∉ shape.render := by
  induction wellFormed with
  | block _ _ ih => exact eof_not_mem_intercalate (by simp) ih
  | bare _ ih => exact ih
  | @returnWith value _ ih => cases value <;> simp_all [render]
  | list _ ih =>
    have items : .eof ∉ commaSeparated _ := eof_not_mem_intercalate (by simp) ih
    simp [render, items]
  | call _ _ callee ih =>
    have items : .eof ∉ commaSeparated _ := eof_not_mem_intercalate (by simp) ih
    simp [render, callee, items]
  | @ifElse _ otherwise _ _ _ _ conditions bodies last =>
    have clauses : .eof ∉ renderClauses .if _ := eof_not_mem_renderClauses conditions bodies
    cases otherwise <;> simp_all [render]
  | @forLoop _ _ _ step _ _ _ _ _ start stop stride body => cases step <;> simp_all [render]
  | _ => simp_all [render]

end Final

end Node

end Sharp
