import Sharp.Proofs.Grammar.Derivation

/-!
What derived trees look like. The literals and names of a word are those of its tree, in the same
order; a block is what a block rule derives and nothing else, so bodies tell truly whether they are
blocks.
-/
namespace Sharp

open Grammar

/-- Literals and names; all other tokens only give structure. -/
def TokenKind.isLeaf : TokenKind → Bool
  | .int _ | .float _ | .string _ | .identifier _ => true
  | _ => false

/-- A block with at least one statement. -/
def Node.IsBlock {α : Type} (node : Node α) : Prop :=
  ∃ place first rest, node = .block place (first :: rest)

/-- A body is marked as a block just when it is one. -/
def Body.Fits {α : Type} (body : Body (Node α)) : Prop := body.isBlock = true ↔ body.node.IsBlock

theorem Node.isBlock_map {α β : Type} {f : α → β} {node : Node α} :
    (map f node).IsBlock ↔ node.IsBlock := by
  cases node with
  | block _ statements => cases statements <;> simp [map, mapAll, IsBlock]
  | ifElse _ _ otherwise => rcases otherwise with _ | ⟨_, _⟩ <;> simp [map, IsBlock]
  | forLoop _ _ _ _ step _ => cases step <;> simp [map, IsBlock]
  | returnWith _ value => cases value <;> simp [map, IsBlock]
  | _ => simp [map, IsBlock]

theorem Body.fits_map {α β : Type} {f : α → β} {body : Body (Node α)} :
    (body.map (Node.map f)).Fits ↔ body.Fits :=
  iff_congr Iff.rfl Node.isBlock_map

namespace Grammar

namespace Phrase

/-- The trees of a phrase from left to right. -/
def shapes : Phrase → List Shape
  | .tree _ shape | .chain _ shape => [shape]
  | .statements shapes | .items shapes => shapes
  | .clause _ found => [found.condition, found.body.node]
  | .clauses found => found.flatMap fun clause => [clause.condition, clause.body.node]
  | .body inner | .closedBody inner | .functionBody inner => [inner.node]
  | .stride step => step.toList

/-- Which trees of a phrase are blocks. -/
def BlocksFit : Phrase → Prop
  | .tree rule shape => shape.IsBlock ↔ rule = .block
  | .chain _ shape => ¬ shape.IsBlock
  | .statements shapes => shapes ≠ []
  | .items _ | .stride _ => True
  | .clause _ found => found.body.Fits
  | .clauses found => ∀ clause ∈ found, clause.body.Fits
  | .body inner | .closedBody inner | .functionBody inner => inner.Fits

end Phrase

theorem filter_nameList (names : List (Ident Unit)) :
    (nameList names).filter TokenKind.isLeaf =
      names.map fun name => TokenKind.identifier name.name := by
  induction names with
  | nil => rfl
  | cons name rest ih =>
    cases rest with
    | nil => rfl
    | cons other rest => simp [nameList, List.filter_cons, TokenKind.isLeaf, ih]

theorem filter_separators (n : Nat) : (separators n).filter TokenKind.isLeaf = [] := by
  simp [separators, TokenKind.isLeaf]

@[simp] theorem isLeaf_binary (op : BinaryOp) : op.token.isLeaf = false := by cases op <;> rfl

@[simp] theorem isLeaf_unary (op : UnaryOp) : op.token.isLeaf = false := by cases op <;> rfl

section Leaves

variable {word : Keyword} {sign : Symbol} {name : String}

@[simp] theorem isLeaf_keyword : (TokenKind.keyword word).isLeaf = false := rfl

@[simp] theorem isLeaf_symbol : (TokenKind.symbol sign).isLeaf = false := rfl

@[simp] theorem isLeaf_newline : TokenKind.newline.isLeaf = false := rfl

@[simp] theorem isLeaf_identifier : (TokenKind.identifier name).isLeaf = true := rfl

end Leaves

namespace Derives

theorem leaves_eq {word : List TokenKind} {phrase : Phrase} (derived : Derives word phrase) :
    phrase.shapes.flatMap Node.leaves = word.filter TokenKind.isLeaf := by
  induction derived with
  | int | float | string | access | emptyList | returnNothing | continueLoop | breakLoop
  | noStride => rfl
  | firstStatement _ ih | bareExpression _ ih | logical _ ih | comparison _ ih | sum _ ih
  | product _ ih | unsigned _ ih | power _ ih | operand _ ih | bareAtom _ ih | firstItem _ ih
  | construct _ _ ih | firstClause _ ih | inlineBody _ ih | closedInline _ ih => exact ih
  | stride _ ih | arrowBody _ ih | blockBody _ ih => simpa [Phrase.shapes] using ih
  | closedBlock _ ih | functionBlock _ ih | bracketed _ ih => simpa [Phrase.shapes] using ih
  | block _ ih =>
    simpa [Phrase.shapes, Node.leaves_eq (.block ..), Node.ownLeaves, Node.children,
      filter_separators] using ih
  | anotherStatement _ _ front ih | anotherItem _ _ front ih | anotherClause _ _ front ih =>
    simp_all [Phrase.shapes, filter_separators]
  | returnValue _ ih =>
    simpa [Phrase.shapes, Node.leaves_eq (.returnWith ..), Node.ownLeaves, Node.children] using ih
  | assign _ ih =>
    simpa [Phrase.shapes, Node.leaves_eq (.assign ..), Node.ownLeaves, Node.children,
      List.filter_cons] using ih
  | negation _ ih | sign _ _ ih =>
    simpa [Phrase.shapes, Node.leaves_eq (.unary ..), Node.ownLeaves, Node.children] using ih
  | operation _ _ front ih =>
    simp_all [Phrase.shapes, Node.leaves_eq (.binary ..), Node.ownLeaves, Node.children]
  | emptyCall _ ih =>
    simpa [Phrase.shapes, Node.leaves_eq (.call ..), Node.ownLeaves, Node.children] using ih
  | call _ _ front ih =>
    simp_all [Phrase.shapes, Node.leaves_eq (.call ..), Node.ownLeaves, Node.children]
  | list _ ih =>
    simpa [Phrase.shapes, Node.leaves_eq (.list ..), Node.ownLeaves, Node.children] using ih
  | clause _ _ front ih => simp_all [Phrase.shapes]
  | closedClauses _ _ ih | inlineClauses _ _ ih =>
    simpa [Phrase.shapes, Node.leaves_eq (.ifElse ..), Node.ownLeaves, Node.children] using ih
  | otherwise _ _ front ih =>
    simp_all [Phrase.shapes, Node.leaves_eq (.ifElse ..), Node.ownLeaves, Node.children]
  | forLoop _ _ _ _ lower upper stride ih =>
    simp_all [Phrase.shapes, Node.leaves_eq (.forLoop ..), Node.ownLeaves, Node.children,
      List.filter_cons]
  | whileLoop _ _ front ih =>
    simp_all [Phrase.shapes, Node.leaves_eq (.whileLoop ..), Node.ownLeaves, Node.children]
  | function _ ih =>
    simpa [Phrase.shapes, Node.leaves_eq (.function ..), Node.ownLeaves, Node.children,
      filter_nameList] using ih

theorem blocksFit {word : List TokenKind} {phrase : Phrase} (derived : Derives word phrase) :
    phrase.BlocksFit := by
  induction derived with
  | @block _ _ _ shapes _ ih =>
    obtain ⟨first, rest, rfl⟩ := List.exists_cons_of_ne_nil ih
    exact iff_of_true ⟨(), first, rest, rfl⟩ rfl
  | firstStatement | anotherStatement => simp [Phrase.BlocksFit]
  | firstItem | anotherItem | noStride | stride => trivial
  | @operand level _ _ _ ih =>
    intro isBlock
    have rule := ih.1 isBlock
    cases level <;> simp [operandRules] at rule
  | construct isConstruct _ ih =>
    refine iff_of_false (fun isBlock => ?_) (by simp)
    simp [ih.1 isBlock] at isConstruct
  | bareExpression _ ih | bareAtom _ ih | unsigned _ ih | bracketed _ ih =>
    simpa [Phrase.BlocksFit] using ih
  | logical _ ih | comparison _ ih | sum _ ih | product _ ih | power _ ih =>
    simpa [Phrase.BlocksFit] using ih
  | clause _ _ _ ih | closedBlock _ ih | closedInline _ ih => exact ih
  | firstClause _ ih => simpa [Phrase.BlocksFit] using ih
  | anotherClause _ _ front ih =>
    simp only [Phrase.BlocksFit, List.mem_append, List.mem_singleton]
    rintro clause (earlier | rfl)
    · exact front clause earlier
    · exact ih
  | blockBody _ ih | functionBlock _ ih => exact iff_of_true rfl (ih.2 rfl)
  | inlineBody _ ih | arrowBody _ ih => simpa [Phrase.BlocksFit, Body.Fits] using ih
  | _ => simp [Phrase.BlocksFit, Node.IsBlock]

/-- Every body inside a derived phrase tells truly whether it is a block. -/
theorem bodies_fit {word : List TokenKind} {phrase : Phrase} (derived : Derives word phrase) :
    ∀ body ∈ phrase.shapes.flatMap Node.bodies, body.Fits := by
  induction derived with
  | int | float | string | access | emptyList | returnNothing | continueLoop | breakLoop
  | noStride => simp [Phrase.shapes, Node.bodies_eq, Node.ownBodies, Node.children]
  | firstStatement _ ih | bareExpression _ ih | logical _ ih | comparison _ ih | sum _ ih
  | product _ ih | unsigned _ ih | power _ ih | operand _ ih | bareAtom _ ih | firstItem _ ih
  | construct _ _ ih | firstClause _ ih | inlineBody _ ih | closedInline _ ih | stride _ ih
  | arrowBody _ ih | blockBody _ ih | closedBlock _ ih | functionBlock _ ih | bracketed _ ih =>
    simpa [Phrase.shapes] using ih
  | anotherStatement _ _ front ih | anotherItem _ _ front ih | anotherClause _ _ front ih =>
    simp only [Phrase.shapes, List.flatMap_append, List.mem_append]
    rintro body (earlier | last)
    · exact front body earlier
    · exact ih body (by simpa [Phrase.shapes] using last)
  | block _ ih =>
    simpa [Phrase.shapes, Node.bodies_eq (.block ..), Node.ownBodies, Node.children] using ih
  | returnValue _ ih =>
    simpa [Phrase.shapes, Node.bodies_eq (.returnWith ..), Node.ownBodies, Node.children] using ih
  | assign _ ih =>
    simpa [Phrase.shapes, Node.bodies_eq (.assign ..), Node.ownBodies, Node.children] using ih
  | negation _ ih | sign _ _ ih =>
    simpa [Phrase.shapes, Node.bodies_eq (.unary ..), Node.ownBodies, Node.children] using ih
  | operation _ _ left right =>
    simp only [Phrase.shapes, Node.bodies_eq (.binary ..), Node.ownBodies, Node.children,
      List.flatMap_cons, List.flatMap_nil, List.append_nil, List.nil_append] at left right ⊢
    exact List.forall_mem_append.2 ⟨left, right⟩
  | emptyCall _ ih =>
    simpa [Phrase.shapes, Node.bodies_eq (.call ..), Node.ownBodies, Node.children] using ih
  | call _ _ callee args =>
    simp only [Phrase.shapes, Node.bodies_eq (.call ..), Node.ownBodies, Node.children,
      List.flatMap_cons, List.flatMap_nil, List.append_nil, List.nil_append] at callee args ⊢
    exact List.forall_mem_append.2 ⟨callee, args⟩
  | list _ ih =>
    simpa [Phrase.shapes, Node.bodies_eq (.list ..), Node.ownBodies, Node.children] using ih
  | clause _ _ condition body =>
    simp only [Phrase.shapes, List.flatMap_cons, List.flatMap_nil, List.append_nil]
      at condition body ⊢
    exact List.forall_mem_append.2 ⟨condition, body⟩
  | closedClauses _ clauses ih | inlineClauses _ clauses ih =>
    simp only [Phrase.shapes, List.flatMap_singleton, Node.bodies_eq (.ifElse ..), Node.ownBodies,
      Node.children, Option.map_none, Option.toList_none, List.append_nil] at ih ⊢
    exact List.forall_mem_append.2 ⟨List.forall_mem_map.2 clauses.blocksFit, ih⟩
  | otherwise clauses last front ih =>
    simp only [Phrase.shapes, List.flatMap_singleton, Node.bodies_eq (.ifElse ..), Node.ownBodies,
      Node.children, Option.map_some, Option.toList_some, List.flatMap_append] at front ih ⊢
    have own := List.forall_mem_append.2
      ⟨List.forall_mem_map.2 clauses.blocksFit, List.forall_mem_singleton.2 last.blocksFit⟩
    exact List.forall_mem_append.2 ⟨own, List.forall_mem_append.2 ⟨front, ih⟩⟩
  | forLoop _ _ _ derived start stop step ih =>
    have fits := derived.blocksFit
    simp_all [Phrase.BlocksFit, Phrase.shapes, Node.bodies_eq (.forLoop ..), Node.ownBodies,
      Node.children, or_imp]
  | whileLoop _ derived condition ih =>
    have fits := derived.blocksFit
    simp_all [Phrase.BlocksFit, Phrase.shapes, Node.bodies_eq (.whileLoop ..), Node.ownBodies,
      Node.children, or_imp]
  | function derived ih =>
    have fits := derived.blocksFit
    simp_all [Phrase.BlocksFit, Phrase.shapes, Node.bodies_eq (.function ..), Node.ownBodies,
      Node.children]

end Derives

end Grammar

end Sharp
