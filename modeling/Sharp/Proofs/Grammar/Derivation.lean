import Sharp.Grammar.Rule
import Sharp.Proofs.Tree.Nodes

/-!
The grammar as a relation between words of tokens and shapes of trees, without cursors, depths or
attempts. A phrase is what a word may stand for: the tree of a rule, or a run of things that a rule
is put together from. Loops of the grammar read from the left, so longer runs extend shorter ones.
-/
namespace Sharp.Grammar

/-- Left and right operands of the operators of a level. -/
def operandRules : Level → Rule × Rule
  | .logical => (.comparison, .comparison)
  | .comparison => (.sum, .sum)
  | .additive => (.product, .product)
  | .multiplicative => (.signed, .signed)
  | .power => (.application, .signed)

inductive Phrase
  | tree (rule : Rule) (shape : Shape)
  | chain (level : Level) (shape : Shape)
  | statements (shapes : List Shape)
  | items (shapes : List Shape)
  | clause (word : Keyword) (clause : Clause Shape)
  | clauses (clauses : List (Clause Shape))
  | body (body : Body Shape)
  | closedBody (body : Body Shape)
  | stride (step : Option Shape)
  | functionBody (body : Body Shape)

/-- Names with commas between them. -/
def nameList : List (Ident Unit) → List TokenKind
  | [] => []
  | [only] => [.identifier only.name]
  | name :: rest => .identifier name.name :: .symbol .comma :: nameList rest

theorem mem_nameList {kind : TokenKind} {names : List (Ident Unit)}
    (among : kind ∈ nameList names) :
    (∃ name, kind = .identifier name) ∨ kind = .symbol .comma := by
  induction names with
  | nil => cases among
  | cons name rest ih =>
    cases rest with
    | nil => exact .inl ⟨name.name, List.mem_singleton.1 among⟩
    | cons next rest =>
      rcases List.mem_cons.1 among with rfl | later
      · exact .inl ⟨name.name, rfl⟩
      rcases List.mem_cons.1 later with rfl | later
      · exact .inr rfl
      · exact ih later

def separators (n : Nat) : List TokenKind := List.replicate n .newline

inductive Derives : List TokenKind → Phrase → Prop
  | block {lead trail word shapes} :
      Derives word (.statements shapes) →
      Derives (separators lead ++ word ++ separators trail) (.tree .block (.block () shapes))
  | firstStatement {word shape} :
      Derives word (.tree .statement shape) → Derives word (.statements [shape])
  | anotherStatement {front n word shapes shape} :
      Derives front (.statements shapes) → Derives word (.tree .statement shape) →
      Derives (front ++ separators (n + 1) ++ word) (.statements (shapes ++ [shape]))
  | returnValue {word shape} :
      Derives word (.tree .expression shape) →
      Derives (.keyword .return :: word) (.tree .statement (.returnWith () (some shape)))
  | returnNothing : Derives [.keyword .return] (.tree .statement (.returnWith () none))
  | continueLoop : Derives [.keyword .continue] (.tree .statement (.continueLoop ()))
  | breakLoop : Derives [.keyword .break] (.tree .statement (.breakLoop ()))
  | bareExpression {word shape} :
      Derives word (.tree .expression shape) → Derives word (.tree .statement shape)
  | assign {name word shape} :
      Derives word (.tree .expression shape) →
      Derives (.keyword .var :: .identifier name :: .symbol .assign :: word)
        (.tree .expression (.assign () ⟨name, ()⟩ shape))
  | logical {word shape} :
      Derives word (.chain .logical shape) → Derives word (.tree .expression shape)
  | negation {word shape} :
      Derives word (.tree .comparison shape) →
      Derives (.keyword .not :: word) (.tree .comparison (.unary () .not shape))
  | comparison {word shape} :
      Derives word (.chain .comparison shape) → Derives word (.tree .comparison shape)
  | sum {word shape} : Derives word (.chain .additive shape) → Derives word (.tree .sum shape)
  | product {word shape} :
      Derives word (.chain .multiplicative shape) → Derives word (.tree .product shape)
  | sign {op word shape} (isSign : op ≠ .not) :
      Derives word (.tree .signed shape) →
      Derives (op.token :: word) (.tree .signed (.unary () op shape))
  | unsigned {word shape} :
      Derives word (.tree .power shape) → Derives word (.tree .signed shape)
  | power {word shape} : Derives word (.chain .power shape) → Derives word (.tree .power shape)
  | operand {level word shape} :
      Derives word (.tree (operandRules level).1 shape) → Derives word (.chain level shape)
  | operation {op front word left right} :
      Derives front (.chain op.level left) →
      Derives word (.tree (operandRules op.level).2 right) →
      Derives (front ++ op.token :: word) (.chain op.level (.binary () op left right))
  | bareAtom {word shape} :
      Derives word (.tree .atom shape) → Derives word (.tree .application shape)
  | emptyCall {word callee} :
      Derives word (.tree .atom callee) →
      Derives (word ++ [.symbol .openRound, .symbol .closeRound])
        (.tree .application (.call () callee []))
  | call {front word callee args} :
      Derives front (.tree .atom callee) → Derives word (.items args) →
      Derives (front ++ .symbol .openRound :: word ++ [.symbol .closeRound])
        (.tree .application (.call () callee args))
  | firstItem {word shape} :
      Derives word (.tree .expression shape) → Derives word (.items [shape])
  | anotherItem {front word shapes shape} :
      Derives front (.items shapes) → Derives word (.tree .expression shape) →
      Derives (front ++ .symbol .comma :: word) (.items (shapes ++ [shape]))
  | int {value} : Derives [.int value] (.tree .atom (.int () value))
  | float {value} : Derives [.float value] (.tree .atom (.float () value))
  | string {value} : Derives [.string value] (.tree .atom (.string () value))
  | access {name} : Derives [.identifier name] (.tree .atom (.access () name))
  | bracketed {word shape} :
      Derives word (.tree .expression shape) →
      Derives (.symbol .openRound :: word ++ [.symbol .closeRound]) (.tree .atom shape)
  | construct {rule word shape}
      (isConstruct : rule ∈ [.listing, .conditional, .forLoop, .whileLoop, .function]) :
      Derives word (.tree rule shape) → Derives word (.tree .atom shape)
  | emptyList :
      Derives [.symbol .openSquare, .symbol .closeSquare] (.tree .listing (.list () []))
  | list {word shapes} :
      Derives word (.items shapes) →
      Derives (.symbol .openSquare :: word ++ [.symbol .closeSquare])
        (.tree .listing (.list () shapes))
  | clause {keyword condition word shape body} :
      Derives condition (.tree .expression shape) → Derives word (.body body) →
      Derives (.keyword keyword :: condition ++ .keyword .then :: word)
        (.clause keyword ⟨shape, body⟩)
  | firstClause {word clause} :
      Derives word (.clause .if clause) → Derives word (.clauses [clause])
  | anotherClause {front word clauses clause} :
      Derives front (.clauses clauses) → Derives word (.clause .elif clause) →
      Derives (front ++ word) (.clauses (clauses ++ [clause]))
  | closedClauses {word clauses clause} (endsInBlock : clause.body.isBlock = true) :
      Derives word (.clauses (clauses ++ [clause])) →
      Derives (word ++ [.keyword .end])
        (.tree .conditional (.ifElse () (clauses ++ [clause]) none))
  | inlineClauses {word clauses clause} (endsInline : clause.body.isBlock = false) :
      Derives word (.clauses (clauses ++ [clause])) →
      Derives word (.tree .conditional (.ifElse () (clauses ++ [clause]) none))
  | otherwise {front word clauses body} :
      Derives front (.clauses clauses) → Derives word (.closedBody body) →
      Derives (front ++ .keyword .else :: word)
        (.tree .conditional (.ifElse () clauses (some body)))
  | blockBody {word shape} :
      Derives word (.tree .block shape) → Derives (.newline :: word) (.body ⟨shape, true⟩)
  | inlineBody {word shape} :
      Derives word (.tree .statement shape) → Derives word (.body ⟨shape, false⟩)
  | closedBlock {word shape} :
      Derives word (.body ⟨shape, true⟩) →
      Derives (word ++ [.keyword .end]) (.closedBody ⟨shape, true⟩)
  | closedInline {word shape} :
      Derives word (.body ⟨shape, false⟩) → Derives word (.closedBody ⟨shape, false⟩)
  | noStride : Derives [] (.stride none)
  | stride {word shape} :
      Derives word (.tree .expression shape) →
      Derives (.keyword .step :: word) (.stride (some shape))
  | forLoop {name lower start upper stop by_ step word body} :
      Derives lower (.tree .expression start) → Derives upper (.tree .expression stop) →
      Derives by_ (.stride step) → Derives word (.closedBody body) →
      Derives (.keyword .for :: .identifier name :: .symbol .assign :: lower ++
          .keyword .to :: upper ++ by_ ++ .keyword .then :: word)
        (.tree .forLoop (.forLoop () ⟨name, ()⟩ start stop step body))
  | whileLoop {front condition word body} :
      Derives front (.tree .expression condition) → Derives word (.closedBody body) →
      Derives (.keyword .while :: front ++ .keyword .then :: word)
        (.tree .whileLoop (.whileLoop () condition body))
  | arrowBody {word shape} :
      Derives word (.tree .expression shape) →
      Derives (.symbol .arrow :: word) (.functionBody ⟨shape, false⟩)
  | functionBlock {word shape} :
      Derives word (.tree .block shape) →
      Derives (.newline :: word ++ [.keyword .end]) (.functionBody ⟨shape, true⟩)
  | function {name params word body} :
      Derives word (.functionBody body) →
      Derives (.keyword .fun :: nameList (Option.toList name) ++ .symbol .openRound ::
          nameList params ++ .symbol .closeRound :: word)
        (.tree .function (.function () name params body))

end Sharp.Grammar
