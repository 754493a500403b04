import Sharp.Proofs.Decimal.Writing
import Sharp.Proofs.Tree.Bracketed
import Sharp.Proofs.Tree.Nodes

/-!
Bracketed forms of trees. Where names are words, floats are finite and no condition is the name
`else`, the form of a tree can be read back, and its first signs tell what kind of node it is.
-/
namespace Sharp

namespace Node

variable {α β : Type}

def ownConditions : Node α → List (Node α)
  | .ifElse _ clauses _ => clauses.map Clause.condition
  | _ => []

/-- What clauses depend on, the last ones without a condition left out. -/
def conditions (node : Node α) : List (Node α) := node.nodes.flatMap ownConditions

theorem conditions_eq (node : Node α) :
    node.conditions = node.ownConditions ++ node.children.flatMap conditions :=
  flatMap_nodes ownConditions node

/-- A tree whose names are words, whose floats are finite, and none of whose conditions looks like
    the sign of a last clause. -/
structure Legible (node : Node α) : Prop where
  words : ∀ name, .identifier name ∈ node.leaves → Lexeme.IsWord name.toList
  finite : ∀ x, .float x ∈ node.leaves → Decimal.magnitude x < Decimal.infiniteMagnitude
  conditions : ∀ condition ∈ node.conditions, ∀ place, condition ≠ .access place "else"

theorem Legible.child {node child : Node α} (legible : node.Legible)
    (below : child ∈ node.children) : child.Legible where
  words name among := legible.words name <| by
    rw [leaves_eq]
    exact List.mem_append_right _ (List.mem_flatMap.2 ⟨child, below, among⟩)
  finite x among := legible.finite x <| by
    rw [leaves_eq]
    exact List.mem_append_right _ (List.mem_flatMap.2 ⟨child, below, among⟩)
  conditions condition among := legible.conditions condition <| by
    rw [conditions_eq]
    exact List.mem_append_right _ (List.mem_flatMap.2 ⟨child, below, among⟩)

section Children

variable {clauses : List (Clause (Node α))} {last : Option (Body (Node α))} {place : α}

theorem mem_children_of_clause {clause : Clause (Node α)} {child : Node α}
    (among : clause ∈ clauses) (isPart : child ∈ [clause.condition, clause.body.node]) :
    child ∈ (Node.ifElse place clauses last).children :=
  List.mem_append_left _ (List.mem_flatMap.2 ⟨clause, among, isPart⟩)

theorem mem_children_of_last {body : Body (Node α)} (isLast : body ∈ last) :
    body.node ∈ (Node.ifElse place clauses last).children :=
  List.mem_append_right _ (Option.mem_toList.2 (Option.map_eq_some_iff.2 ⟨body, isLast, rfl⟩))

theorem mem_children_of_step {name : Ident α} {start stop stride : Node α}
    {step : Option (Node α)} {body : Body (Node α)} (taken : stride ∈ step) :
    stride ∈ (Node.forLoop place name start stop step body).children := by
  simp [children, Option.mem_def.1 taken]

end Children

/-! ### Parts of a form -/

def bodyForms (body : Body (Node α)) : List Sexp :=
  body.node.sexp :: Sexp.blockMark body.isBlock

def clauseForm (clause : Clause (Node α)) : Sexp :=
  .square (clause.condition.sexp :: bodyForms clause.body)

def lastForms (last : Option (Body (Node α))) : List Sexp :=
  last.elim [] fun body => [.square (.atom "else" :: bodyForms body)]

def stepForms (step : Option (Node α)) : List Sexp :=
  step.elim [] fun stride => [.atom "step", stride.sexp]

section Parts

variable {place : α}

theorem sexps_eq (nodes : List (Node α)) : sexps nodes = nodes.map sexp := by
  induction nodes with
  | nil => rfl
  | cons node rest ih => exact congrArg _ ih

theorem clauseSexps_eq (clauses : List (Clause (Node α))) :
    clauseSexps clauses = clauses.map clauseForm := by
  induction clauses with
  | nil => rfl
  | cons clause rest ih => exact congrArg _ ih

theorem sexp_list (items : List (Node α)) : sexp (.list place items) = .square (items.map sexp) :=
  congrArg Sexp.square (sexps_eq items)

theorem sexp_block (statements : List (Node α)) :
    sexp (.block place statements) = .curly (statements.map sexp) :=
  congrArg Sexp.curly (sexps_eq statements)

theorem sexp_call (callee : Node α) (args : List (Node α)) :
    sexp (.call place callee args) = .round (.atom "call" :: callee.sexp :: args.map sexp) :=
  congrArg (Sexp.round <| .atom "call" :: callee.sexp :: ·) (sexps_eq args)

theorem sexp_ifElse (clauses : List (Clause (Node α))) (last : Option (Body (Node α))) :
    sexp (.ifElse place clauses last) =
      .round (.atom "if" :: (clauses.map clauseForm ++ lastForms last)) := by
  rw [← clauseSexps_eq]
  cases last <;> rfl

theorem sexp_forLoop (name : Ident α) (start stop : Node α) (step : Option (Node α))
    (body : Body (Node α)) :
    sexp (.forLoop place name start stop step body) =
      .round (.atom "for" :: .ofIdent name :: start.sexp :: stop.sexp ::
        (stepForms step ++ bodyForms body)) := by
  cases step <;> rfl

theorem sexp_whileLoop (condition : Node α) (body : Body (Node α)) :
    sexp (.whileLoop place condition body) =
      .round (.atom "while" :: condition.sexp :: bodyForms body) := rfl

theorem sexp_returnWith (value : Option (Node α)) :
    sexp (.returnWith place value) = .round (.atom "return" :: (value.map sexp).toList) := by
  cases value <;> rfl

theorem sexp_function (name : Option (Ident α)) (params : List (Ident α)) (body : Body (Node α)) :
    sexp (.function place name params body) =
      .round [.atom "fun", name.elim (.atom "<anonymous>") Sexp.ofIdent,
        .round (params.map Sexp.ofIdent), .atom (if body.isBlock then "block" else "->"),
        body.node.sexp] := rfl

end Parts

/-! ### Forms can be read back -/

section Atoms

theorem isBare_word {word : String} (wordy : Lexeme.IsWord word.toList) : Sexp.IsBare word := by
  have wordless (c : Char) (part : Text.isWordPart c = true) : Sexp.isMark c = false :=
    Sexp.isMark_eq_false (by decide +kernel) part
  obtain ⟨c, more, chars, letter, others⟩ := wordy
  refine ⟨fun nothing => by simp [nothing] at chars, ?_⟩
  rw [chars, List.forall_mem_cons]
  exact ⟨wordless c (by rw [Text.isWordPart, letter, Bool.true_or]),
    fun d member => wordless d (others d member)⟩

theorem isBare_int (value : Int) : Sexp.IsBare value.repr :=
  ⟨mt String.toList_eq_nil_iff.2 (Decimal.toList_repr_ne_nil value),
    fun c member => Sexp.isMark_eq_false (by decide) (Decimal.isFigure_of_mem_repr c member)⟩

theorem isBare_float {x : Float} (finite : Decimal.magnitude x < Decimal.infiniteMagnitude) :
    Sexp.IsBare (Decimal.floatText x) := by
  have floating := Decimal.isFloating_floatText finite
  obtain ⟨c, cs, chars, -⟩ := floating.starts
  refine ⟨fun nothing => by simp [nothing] at chars, fun c member => ?_⟩
  rcases floating.made c member with figure | marker
  · exact Sexp.isMark_eq_false (by decide) figure
  · exact Sexp.isMark_eq_false (by decide) marker

theorem isBare_binary (op : BinaryOp) : Sexp.IsBare op.text := by cases op <;> decide

theorem isBare_unary (op : UnaryOp) : Sexp.IsBare op.text := by cases op <;> decide

end Atoms

section Forms

open Sexp (Readable IsBare)

theorem mem_leaves {node : Node α} {leaf : TokenKind} (own : leaf ∈ node.ownLeaves) :
    leaf ∈ node.leaves := by
  rw [leaves_eq]
  exact List.mem_append_left _ own

theorem readable_headed {word : String} {items : List Sexp} (bare : IsBare word)
    (readable : ∀ item ∈ items, Readable item) : Readable (.round (.atom word :: items)) :=
  .round (List.forall_mem_cons.2 ⟨.bare bare, readable⟩)

theorem readable_bodyForms {body : Body (Node α)} (inner : body.node.sexp.Readable) :
    ∀ form ∈ bodyForms body, Readable form := by
  rw [bodyForms, List.forall_mem_cons]
  refine ⟨inner, ?_⟩
  cases body.isBlock with
  | false => exact List.forall_mem_nil _
  | true => exact List.forall_mem_singleton.2 (.bare (by decide))

theorem readable_clauseForm {clause : Clause (Node α)} (condition : clause.condition.sexp.Readable)
    (inner : clause.body.node.sexp.Readable) : Readable (clauseForm clause) :=
  .square (List.forall_mem_cons.2 ⟨condition, readable_bodyForms inner⟩)

theorem readable_lastForms {last : Option (Body (Node α))}
    (inner : ∀ body ∈ last, body.node.sexp.Readable) :
    ∀ form ∈ lastForms last, Readable form := by
  cases last with
  | none => exact List.forall_mem_nil _
  | some body =>
    refine List.forall_mem_singleton.2 (.square (List.forall_mem_cons.2 ⟨.bare (by decide), ?_⟩))
    exact readable_bodyForms (inner body rfl)

theorem readable_stepForms {step : Option (Node α)}
    (inner : ∀ stride ∈ step, stride.sexp.Readable) : ∀ form ∈ stepForms step, Readable form := by
  cases step with
  | none => exact List.forall_mem_nil _
  | some stride =>
    exact List.forall_mem_cons.2
      ⟨.bare (by decide), List.forall_mem_singleton.2 (inner stride rfl)⟩

theorem readable_sexp {node : Node α} (legible : node.Legible) : node.sexp.Readable := by
  induction node using induction_on_children with
  | inherits node ih =>
    have below (child) (isChild : child ∈ node.children) : child.sexp.Readable :=
      ih child isChild (legible.child isChild)
    have word {name} (own : .identifier name ∈ node.ownLeaves) : Readable (.atom name) :=
      .bare (isBare_word (legible.words name (mem_leaves own)))
    cases node with
    | int _ value => exact .bare (isBare_int value)
    | float _ x => exact .bare (isBare_float (legible.finite x (mem_leaves List.mem_cons_self)))
    | string _ value => exact .quoted value
    | access _ name => exact word List.mem_cons_self
    | list _ items =>
      rw [sexp_list]
      exact .square (List.forall_mem_map.2 below)
    | block _ statements =>
      rw [sexp_block]
      exact .curly (List.forall_mem_map.2 below)
    | call _ callee args =>
      simp only [children, List.forall_mem_cons] at below
      rw [sexp_call]
      exact readable_headed (by decide)
        (List.forall_mem_cons.2 ⟨below.1, List.forall_mem_map.2 below.2⟩)
    | assign _ name value =>
      simp only [children, List.forall_mem_singleton] at below
      exact readable_headed (by decide)
        (List.forall_mem_cons.2 ⟨word List.mem_cons_self, List.forall_mem_singleton.2 below⟩)
    | binary _ op left right =>
      simp only [children, List.forall_mem_cons] at below
      exact readable_headed (isBare_binary op) (by simpa using below)
    | unary _ op operand =>
      simp only [children, List.forall_mem_singleton] at below
      exact readable_headed (isBare_unary op) (List.forall_mem_singleton.2 below)
    | ifElse _ clauses last =>
      rw [sexp_ifElse]
      refine readable_headed (by decide) (List.forall_mem_append.2 ⟨?_, ?_⟩)
      · refine List.forall_mem_map.2 fun clause among => ?_
        exact readable_clauseForm (below _ (mem_children_of_clause among (by simp)))
          (below _ (mem_children_of_clause among (by simp)))
      · exact readable_lastForms fun body isLast => below _ (mem_children_of_last isLast)
    | forLoop _ name start stop step body =>
      rw [sexp_forLoop]
      refine readable_headed (by decide) ?_
      simp only [List.forall_mem_cons, List.forall_mem_append]
      exact ⟨word List.mem_cons_self, below start (by simp [children]),
        below stop (by simp [children]),
        readable_stepForms fun stride taken => below stride (mem_children_of_step taken),
        readable_bodyForms (below body.node (by simp [children]))⟩
    | whileLoop _ condition body =>
      simp only [children, List.forall_mem_cons] at below
      rw [sexp_whileLoop]
      exact readable_headed (by decide)
        (List.forall_mem_cons.2 ⟨below.1, readable_bodyForms below.2.1⟩)
    | function _ name params body =>
      simp only [children, List.forall_mem_singleton] at below
      have title : Readable (name.elim (.atom "<anonymous>") Sexp.ofIdent) := by
        cases name with
        | none => exact .bare (by decide)
        | some name => exact word List.mem_cons_self
      have row : Readable (.round (params.map Sexp.ofIdent)) := by
        refine .round (List.forall_mem_map.2 fun param among => word ?_)
        exact List.mem_map.2 ⟨param, List.mem_append_right _ among, rfl⟩
      have layout : Readable (.atom (if body.isBlock then "block" else "->")) := by
        split <;> exact .bare (by decide)
      rw [sexp_function]
      refine readable_headed (by decide) ?_
      simp only [List.forall_mem_cons]
      exact ⟨title, row, layout, below, List.forall_mem_nil _⟩
    | returnWith _ value =>
      rw [sexp_returnWith]
      refine readable_headed (by decide) ?_
      rw [Option.toList_map]
      exact List.forall_mem_map.2 below
    | continueLoop => exact .round (List.forall_mem_singleton.2 (.bare (by decide)))
    | breakLoop => exact .round (List.forall_mem_singleton.2 (.bare (by decide)))

end Forms

end Node

end Sharp
