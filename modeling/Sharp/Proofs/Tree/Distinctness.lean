import Sharp.Proofs.Tree.Legibility

/-!
Different trees have different texts. The form of a node tells its kind, by its brackets, by the
word it begins with and by how many parts it has, and forms of one kind have equal parts only where
the nodes have. Brackets and words that serve twice never stand in the same place.
-/
namespace Sharp

/-- The kinds of nodes. -/
inductive Kind
  | int | float | string | list | access | assign | binary | unary | ifElse | forLoop | whileLoop
  | function | call | returnWith | continueLoop | breakLoop | block

namespace Sexp

def kindOfAtom : List Char → Kind
  | [] => .access
  | c :: cs =>
    if c = '"' then .string
    else if Decimal.isFigure c then if (c :: cs).any Decimal.isMarker then .float else .int
    else .access

/-- The kind of a round form with some word in front of some other parts. -/
def kindOfHead (parts : Nat) : String → Kind
  | "var" => .assign
  | "if" => .ifElse
  | "for" => .forLoop
  | "while" => .whileLoop
  | "fun" => .function
  | "call" => .call
  | "return" => .returnWith
  | "continue" => .continueLoop
  | "break" => .breakLoop
  | _ => if parts = 1 then .unary else .binary

def kind : Sexp → Kind
  | .atom text => kindOfAtom text.toList
  | .round (.atom head :: items) => kindOfHead items.length head
  | .round _ => .call
  | .square _ => .list
  | .curly _ => .block

end Sexp

namespace Node

variable {α β : Type}

def kind : Node α → Kind
  | .int .. => .int
  | .float .. => .float
  | .string .. => .string
  | .list .. => .list
  | .access .. => .access
  | .assign .. => .assign
  | .binary .. => .binary
  | .unary .. => .unary
  | .ifElse .. => .ifElse
  | .forLoop .. => .forLoop
  | .whileLoop .. => .whileLoop
  | .function .. => .function
  | .call .. => .call
  | .returnWith .. => .returnWith
  | .continueLoop .. => .continueLoop
  | .breakLoop .. => .breakLoop
  | .block .. => .block

/-! ### Kinds -/

section Atoms

variable {c : Char} {cs : List Char}

theorem ne_quote_of_isFigure (figure : Decimal.isFigure c = true) : c ≠ '"' := by
  rintro rfl
  exact absurd figure (by decide)

theorem not_isMarker_of_isFigure (figure : Decimal.isFigure c = true) :
    ¬Decimal.isMarker c = true := by
  intro marker
  simp only [Decimal.isMarker, Bool.or_eq_true, beq_iff_eq] at marker
  rcases marker with rfl | rfl <;> exact absurd figure (by decide)

theorem not_isFigure_of_isAlphabetic (letter : Text.isAlphabetic c = true) :
    ¬Decimal.isFigure c = true := by
  have bound := Lexeme.le_of_isAlphabetic letter
  rw [Decimal.isFigure, Bool.or_eq_true, Lexeme.isDigit_iff, beq_iff_eq]
  rintro (digit | rfl)
  · omega
  · exact absurd bound (by decide)

theorem kindOfAtom_figure (figure : Decimal.isFigure c = true) :
    Sexp.kindOfAtom (c :: cs) = if (c :: cs).any Decimal.isMarker then .float else .int := by
  rw [Sexp.kindOfAtom, if_neg (ne_quote_of_isFigure figure), if_pos figure]

theorem kindOfAtom_int (value : Int) : Sexp.kindOfAtom value.repr.toList = .int := by
  obtain ⟨c, cs, chars⟩ := List.exists_cons_of_ne_nil (Decimal.toList_repr_ne_nil value)
  have figures := Decimal.isFigure_of_mem_repr (p := value)
  rw [chars] at figures ⊢
  rw [kindOfAtom_figure (figures c List.mem_cons_self), if_neg]
  rw [Bool.not_eq_true, List.any_eq_false]
  exact fun d member => not_isMarker_of_isFigure (figures d member)

theorem kindOfAtom_float {x : Float} (finite : Decimal.magnitude x < Decimal.infiniteMagnitude) :
    Sexp.kindOfAtom (Decimal.floatText x).toList = .float := by
  have floating := Decimal.isFloating_floatText finite
  obtain ⟨c, cs, chars, figure⟩ := floating.starts
  have marked := List.any_eq_true.2 floating.marked
  rw [chars] at marked ⊢
  rw [kindOfAtom_figure figure, if_pos marked]

theorem kindOfAtom_word {word : String} (wordy : Lexeme.IsWord word.toList) :
    Sexp.kindOfAtom word.toList = .access := by
  obtain ⟨c, cs, chars, letter, -⟩ := wordy
  have other : c ≠ '"' := by
    rintro rfl
    exact absurd (Lexeme.le_of_isAlphabetic letter) (by decide)
  rw [chars, Sexp.kindOfAtom, if_neg other, if_neg (not_isFigure_of_isAlphabetic letter)]

end Atoms

theorem kind_sexp {node : Node α} (legible : node.Legible) : node.sexp.kind = node.kind := by
  cases node with
  | int _ value => exact kindOfAtom_int value
  | float _ x => exact kindOfAtom_float (legible.finite x (mem_leaves List.mem_cons_self))
  | string _ value => rw [sexp, Sexp.kind, Text.toList_quoted]; rfl
  | access _ name => exact kindOfAtom_word (legible.words name (mem_leaves List.mem_cons_self))
  | binary _ op => cases op <;> rfl
  | unary _ op => cases op <;> rfl
  | ifElse => rw [sexp_ifElse]; rfl
  | forLoop => rw [sexp_forLoop]; rfl
  | returnWith => rw [sexp_returnWith]; rfl
  | _ => rfl

/-! ### Parts of forms -/

section Parts

variable {body : Body (Node α)} {body' : Body (Node β)}

theorem blockMark_injective {isBlock isBlock' : Bool}
    (same : Sexp.blockMark isBlock = Sexp.blockMark isBlock') : isBlock = isBlock' := by
  cases isBlock <;> cases isBlock' <;> simp_all [Sexp.blockMark]

theorem bodyForms_inj (same : bodyForms body = bodyForms body') :
    body.node.sexp = body'.node.sexp ∧ body.isBlock = body'.isBlock := by
  obtain ⟨nodes, marks⟩ := List.cons.inj same
  exact ⟨nodes, blockMark_injective marks⟩

theorem clauseForm_inj {clause : Clause (Node α)} {clause' : Clause (Node β)}
    (same : clauseForm clause = clauseForm clause') :
    clause.condition.sexp = clause'.condition.sexp ∧
      bodyForms clause.body = bodyForms clause'.body :=
  List.cons.inj (Sexp.square.inj same)

theorem lastForms_ne_clauseForm {last : Option (Body (Node α))} {clause : Clause (Node β)}
    {rest : List Sexp} (plain : clause.condition.sexp ≠ .atom "else") :
    lastForms last ≠ clauseForm clause :: rest := by
  intro same
  cases last with
  | none => cases same
  | some body => exact plain (List.cons.inj (Sexp.square.inj (List.cons.inj same).1)).1.symm

/-- Clauses end where the last one without a condition begins. -/
theorem clauseForms_append_inj {clauses : List (Clause (Node α))}
    {clauses' : List (Clause (Node β))} {last : Option (Body (Node α))}
    {last' : Option (Body (Node β))}
    (plain : ∀ clause ∈ clauses, clause.condition.sexp ≠ .atom "else")
    (plain' : ∀ clause ∈ clauses', clause.condition.sexp ≠ .atom "else")
    (same : clauses.map clauseForm ++ lastForms last =
      clauses'.map clauseForm ++ lastForms last') :
    clauses.map clauseForm = clauses'.map clauseForm ∧ lastForms last = lastForms last' := by
  induction clauses generalizing clauses' with
  | nil =>
    cases clauses' with
    | nil => exact ⟨rfl, same⟩
    | cons clause' clauses' =>
      exact absurd same (lastForms_ne_clauseForm (plain' clause' List.mem_cons_self))
  | cons clause clauses ih =>
    rw [List.forall_mem_cons] at plain
    cases clauses' with
    | nil => exact absurd same.symm (lastForms_ne_clauseForm plain.1)
    | cons clause' clauses' =>
      rw [List.forall_mem_cons] at plain'
      obtain ⟨first, others⟩ := List.cons.inj same
      obtain ⟨rest, lasts⟩ := ih plain.2 plain'.2 others
      exact ⟨List.cons_eq_cons.2 ⟨first, rest⟩, lasts⟩

theorem lastForms_inj {last : Option (Body (Node α))} {last' : Option (Body (Node β))}
    (same : lastForms last = lastForms last') : last.map bodyForms = last'.map bodyForms := by
  cases last <;> cases last' <;> simp_all [lastForms]

theorem stepForms_inj {step : Option (Node α)} {step' : Option (Node β)}
    (same : stepForms step = stepForms step') : step.map sexp = step'.map sexp := by
  cases step <;> cases step' <;> simp_all [stepForms]

/-- The number of parts tells whether there is a step and whether the body is marked. -/
theorem stepForms_append_inj {step : Option (Node α)} {step' : Option (Node β)}
    (same : stepForms step ++ bodyForms body = stepForms step' ++ bodyForms body') :
    stepForms step = stepForms step' ∧ bodyForms body = bodyForms body' := by
  have counts : (stepForms step).length = (stepForms step').length := by
    have whole := congrArg List.length same
    revert whole
    cases step <;> cases step' <;> cases hb : body.isBlock <;> cases hc : body'.isBlock <;>
      simp [stepForms, bodyForms, Sexp.blockMark, hb, hc]
  exact List.append_inj same counts

end Parts

/-! ### Trees -/

section Trees

variable {body : Body (Node α)} {body' : Body (Node β)}

theorem map_congr_of_map {ν μ γ δ : Type} {f : ν → γ} {g : μ → γ} {f' : ν → δ} {g' : μ → δ}
    {l : List ν} {l' : List μ} (within : ∀ a ∈ l, ∀ b ∈ l', f a = g b → f' a = g' b)
    (same : l.map f = l'.map g) : l.map f' = l'.map g' := by
  induction l generalizing l' with
  | nil =>
    cases l' with
    | nil => rfl
    | cons => cases same
  | cons a l ih =>
    cases l' with
    | nil => cases same
    | cons b l' =>
      obtain ⟨first, others⟩ := List.cons.inj same
      rw [List.map_cons, List.map_cons, within a List.mem_cons_self b List.mem_cons_self first,
        ih (fun a among b also => within a (List.mem_cons_of_mem _ among) b
          (List.mem_cons_of_mem _ also)) others]

theorem map_some_congr_of_map {ν μ γ δ : Type} {f : ν → γ} {g : μ → γ} {f' : ν → δ} {g' : μ → δ}
    {o : Option ν} {o' : Option μ} (within : ∀ a ∈ o, ∀ b ∈ o', f a = g b → f' a = g' b)
    (same : o.map f = o'.map g) : o.map f' = o'.map g' := by
  cases o with
  | none =>
    cases o' with
    | none => rfl
    | some => cases same
  | some a =>
    cases o' with
    | none => cases same
    | some b => exact congrArg some (within a rfl b rfl (Option.some.inj same))

theorem erase_body (inner : body.node.sexp = body'.node.sexp → body.node.erase = body'.node.erase)
    (same : bodyForms body = bodyForms body') : body.map erase = body'.map erase := by
  obtain ⟨nodes, marks⟩ := bodyForms_inj same
  rw [Body.map, Body.map, inner nodes, marks]

theorem erase_clause {clause : Clause (Node α)} {clause' : Clause (Node β)}
    (inner : ∀ child ∈ [clause.condition, clause.body.node],
      ∀ child' ∈ [clause'.condition, clause'.body.node],
        child.sexp = child'.sexp → child.erase = child'.erase)
    (same : clauseForm clause = clauseForm clause') :
    clause.map erase = clause'.map erase := by
  obtain ⟨conditions, bodies⟩ := clauseForm_inj same
  rw [Clause.map, Clause.map, inner _ (by simp) _ (by simp) conditions,
    erase_body (inner _ (by simp) _ (by simp)) bodies]

theorem ident_map_erase {name : Ident α} {name' : Ident β} (same : name.name = name'.name) :
    name.map (fun _ => ()) = name'.map fun _ => () := by
  rw [Ident.map, Ident.map, same]

theorem Legible.title_word {place : α} {title : Option (Ident α)} {params : List (Ident α)}
    (legible : (Node.function place title params body).Legible) :
    ∀ name ∈ title, name.name ≠ "<anonymous>" := by
  intro name named anonymous
  have own : .identifier name.name ∈ (Node.function place title params body).ownLeaves :=
    List.mem_map.2 ⟨name, List.mem_append_left _ (Option.mem_toList.2 named), rfl⟩
  obtain ⟨c, cs, chars, letter, -⟩ := legible.words name.name (mem_leaves own)
  rw [anonymous] at chars
  obtain rfl : '<' = c := (List.cons.inj chars).1
  exact absurd (Lexeme.le_of_isAlphabetic letter) (by decide)

theorem title_inj {title : Option (Ident α)} {title' : Option (Ident β)}
    (named : ∀ name ∈ title, name.name ≠ "<anonymous>")
    (named' : ∀ name ∈ title', name.name ≠ "<anonymous>")
    (same : title.elim (.atom "<anonymous>") Sexp.ofIdent =
      title'.elim (.atom "<anonymous>") Sexp.ofIdent) :
    title.map (Ident.map fun _ => ()) = title'.map (Ident.map fun _ => ()) := by
  cases title with
  | none =>
    cases title' with
    | none => rfl
    | some name' => exact absurd (Sexp.atom.inj same).symm (named' name' rfl)
  | some name =>
    cases title' with
    | none => exact absurd (Sexp.atom.inj same) (named name rfl)
    | some name' => exact congrArg some (ident_map_erase (Sexp.atom.inj same))

theorem layout_inj {isBlock isBlock' : Bool}
    (same : (if isBlock then "block" else "->") = if isBlock' then "block" else "->") :
    isBlock = isBlock' := by
  revert same
  cases isBlock <;> cases isBlock' <;> decide

theorem binaryText_injective {op op' : BinaryOp} (same : op.text = op'.text) : op = op' := by
  revert same
  cases op <;> cases op' <;> decide

theorem unaryText_injective {op op' : UnaryOp} (same : op.text = op'.text) : op = op' := by
  revert same
  cases op <;> cases op' <;> decide

theorem Legible.condition_sexp {clauses : List (Clause (Node α))} {place : α}
    {last : Option (Body (Node α))} (legible : (Node.ifElse place clauses last).Legible) :
    ∀ clause ∈ clauses, clause.condition.sexp ≠ .atom "else" := by
  intro clause among same
  have isChild : clause.condition ∈ (Node.ifElse place clauses last).children :=
    List.mem_append_left _ (List.mem_flatMap.2 ⟨clause, among, List.mem_cons_self⟩)
  have isCondition : clause.condition ∈ (Node.ifElse place clauses last).conditions := by
    rw [conditions_eq]
    exact List.mem_append_left _ (List.mem_map.2 ⟨clause, among, rfl⟩)
  have kinds := kind_sexp (legible.child isChild)
  have plain := legible.conditions _ isCondition
  rw [same] at kinds
  cases shown : clause.condition <;> rw [shown] at kinds same plain <;> cases kinds
  rename_i place name
  cases same
  exact plain place rfl

/-- One form stands for one kind of node, with the same literals, names and marks in it; whether
    the trees are the same is left to the children. -/
theorem erase_eq_of_children {node : Node α} {other : Node β} (legible : node.Legible)
    (legible' : other.Legible) (same : node.sexp = other.sexp)
    (below : ∀ child ∈ node.children, ∀ child' ∈ other.children,
      child.sexp = child'.sexp → child.erase = child'.erase) : node.erase = other.erase := by
  have kinds := congrArg Sexp.kind same
  rw [kind_sexp legible, kind_sexp legible'] at kinds
  cases node <;> cases other <;> cases kinds
  case int.int.refl _ value _ value' =>
    rw [erase_int, erase_int, Int.repr_injective (Sexp.atom.inj same)]
  case float.float.refl _ x _ y =>
    have finite := legible.finite x (mem_leaves List.mem_cons_self)
    have finite' := legible'.finite y (mem_leaves List.mem_cons_self)
    rw [erase_float, erase_float,
      Decimal.floatText_injective finite finite' (Sexp.atom.inj same)]
  case string.string.refl _ value _ value' =>
    have texts := congrArg String.toList (Sexp.atom.inj same)
    rw [erase_string, erase_string, (Text.quoted_append_inj (congrArg (· ++ []) texts)).1]
  case access.access.refl _ name _ name' =>
    rw [erase_access, erase_access, Sexp.atom.inj same]
  case list.list.refl _ items _ items' =>
    rw [sexp_list, sexp_list] at same
    have rows : items.map erase = items'.map erase :=
      map_congr_of_map below (Sexp.square.inj same)
    rw [erase_list, erase_list, rows]
  case block.block.refl _ statements _ statements' =>
    rw [sexp_block, sexp_block] at same
    have rows : statements.map erase = statements'.map erase :=
      map_congr_of_map below (Sexp.curly.inj same)
    rw [erase_block, erase_block, rows]
  case call.call.refl _ callee args _ callee' args' =>
    rw [sexp_call, sexp_call] at same
    obtain ⟨-, parts⟩ := List.cons.inj (Sexp.round.inj same)
    obtain ⟨callees, rows⟩ := List.cons.inj parts
    rw [erase_call, erase_call, below callee List.mem_cons_self callee' List.mem_cons_self callees,
      map_congr_of_map (fun arg among arg' among' => below arg (List.mem_cons_of_mem _ among) arg'
        (List.mem_cons_of_mem _ among')) rows]
  case assign.assign.refl _ name value _ name' value' =>
    simp only [sexp, Sexp.ofIdent, Sexp.round.injEq, List.cons.injEq, Sexp.atom.injEq, true_and,
      and_true] at same
    rw [erase_assign, erase_assign, same.1,
      below value List.mem_cons_self value' List.mem_cons_self same.2]
  case binary.binary.refl _ op left right _ op' left' right' =>
    simp only [sexp, Sexp.round.injEq, List.cons.injEq, Sexp.atom.injEq, and_true] at same
    obtain ⟨ops, lefts, rights⟩ := same
    rw [erase_binary, erase_binary, binaryText_injective ops,
      below left (by simp [children]) left' (by simp [children]) lefts,
      below right (by simp [children]) right' (by simp [children]) rights]
  case unary.unary.refl _ op operand _ op' operand' =>
    simp only [sexp, Sexp.round.injEq, List.cons.injEq, Sexp.atom.injEq, and_true] at same
    rw [erase_unary, erase_unary, unaryText_injective same.1,
      below operand List.mem_cons_self operand' List.mem_cons_self same.2]
  case ifElse.ifElse.refl _ clauses last _ clauses' last' =>
    rw [sexp_ifElse, sexp_ifElse] at same
    obtain ⟨-, parts⟩ := List.cons.inj (Sexp.round.inj same)
    obtain ⟨rows, lasts⟩ :=
      clauseForms_append_inj legible.condition_sexp legible'.condition_sexp parts
    have clauses : clauses.map (Clause.map erase) = clauses'.map (Clause.map erase) := by
      refine map_congr_of_map (fun clause among clause' among' => erase_clause ?_) rows
      exact fun child isPart child' isPart' => below child (mem_children_of_clause among isPart)
        child' (mem_children_of_clause among' isPart')
    have last : last.map (Body.map erase) = last'.map (Body.map erase) := by
      refine map_some_congr_of_map (fun body isLast body' isLast' => erase_body ?_)
        (lastForms_inj lasts)
      exact below _ (mem_children_of_last isLast) _ (mem_children_of_last isLast')
    rw [erase_ifElse, erase_ifElse, clauses, last]
  case forLoop.forLoop.refl _ name start stop step body _ name' start' stop' step' body' =>
    rw [sexp_forLoop, sexp_forLoop] at same
    simp only [Sexp.ofIdent, Sexp.round.injEq, List.cons.injEq, Sexp.atom.injEq, true_and] at same
    obtain ⟨names, starts, stops, parts⟩ := same
    obtain ⟨steps, bodies⟩ := stepForms_append_inj parts
    have strides : step.map erase = step'.map erase :=
      map_some_congr_of_map (fun stride taken stride' taken' => below stride
        (mem_children_of_step taken) stride' (mem_children_of_step taken')) (stepForms_inj steps)
    rw [erase_forLoop, erase_forLoop, names, strides,
      below start (by simp [children]) start' (by simp [children]) starts,
      below stop (by simp [children]) stop' (by simp [children]) stops,
      erase_body (below _ (by simp [children]) _ (by simp [children])) bodies]
  case whileLoop.whileLoop.refl _ condition body _ condition' body' =>
    rw [sexp_whileLoop, sexp_whileLoop] at same
    obtain ⟨-, parts⟩ := List.cons.inj (Sexp.round.inj same)
    obtain ⟨conditions, bodies⟩ := List.cons.inj parts
    rw [erase_whileLoop, erase_whileLoop,
      below condition List.mem_cons_self condition' List.mem_cons_self conditions,
      erase_body (below _ (by simp [children]) _ (by simp [children])) bodies]
  case function.function.refl _ name params body _ name' params' body' =>
    rw [sexp_function, sexp_function] at same
    simp only [Sexp.round.injEq, List.cons.injEq, true_and, and_true, Sexp.atom.injEq] at same
    obtain ⟨titles, rows, layouts, nodes⟩ := same
    have names : name.map (Ident.map fun _ => ()) = name'.map (Ident.map fun _ => ()) :=
      title_inj legible.title_word legible'.title_word titles
    have params : params.map (Ident.map fun _ => ()) = params'.map (Ident.map fun _ => ()) :=
      map_congr_of_map (fun param _ param' _ same => ident_map_erase (Sexp.atom.inj same)) rows
    have bodies : body.map erase = body'.map erase := by
      rw [Body.map, Body.map, below _ List.mem_cons_self _ List.mem_cons_self nodes,
        layout_inj layouts]
    rw [erase_function, erase_function, names, params, bodies]
  case returnWith.returnWith.refl _ value _ value' =>
    rw [sexp_returnWith, sexp_returnWith] at same
    obtain ⟨-, parts⟩ := List.cons.inj (Sexp.round.inj same)
    have values : value.map erase = value'.map erase := by
      refine map_some_congr_of_map (fun inner taken inner' taken' => below inner
        (Option.mem_toList.2 taken) inner' (Option.mem_toList.2 taken')) ?_
      cases value <;> cases value' <;> simp_all
    rw [erase_returnWith, erase_returnWith, values]
  case continueLoop.continueLoop.refl => rfl
  case breakLoop.breakLoop.refl => rfl

/-- Trees with one form differ in their annotations at most. -/
theorem erase_eq_of_sexp {node : Node α} {other : Node β} (legible : node.Legible)
    (legible' : other.Legible) (same : node.sexp = other.sexp) : node.erase = other.erase := by
  induction node using induction_on_children generalizing other with
  | inherits node ih =>
    exact erase_eq_of_children legible legible' same fun child isChild child' isChild' =>
      ih child isChild (legible.child isChild) (legible'.child isChild')

end Trees

end Node

/-- Texts of different trees differ, as far as names are words, floats are finite and no condition
    is the name `else`. Annotations are not written, and whether a tree is a program does not
    matter. -/
theorem erase_eq_of_text {α β : Type} {tree : Node α} {other : Node β} (legible : tree.Legible)
    (legible' : other.Legible) (same : tree.text = other.text) : tree.erase = other.erase :=
  Node.erase_eq_of_sexp legible legible'
    (Sexp.text_injective (Node.readable_sexp legible) (Node.readable_sexp legible') same)

/-- Names may be words that also stand for parts of a form. -/
theorem erase_eq_of_text_names :
    let tree : Node Nat := .block 0 [.forLoop 1 ⟨"step", 2⟩ (.access 3 "call") (.access 4 "else")
      none ⟨.unary 5 .negate (.float 6 1.5), false⟩]
    let other : Node Unit := .block () [.forLoop () ⟨"step", ()⟩ (.access () "call")
      (.access () "else") none ⟨.unary () .negate (.float () 1.5), false⟩]
    tree.Legible ∧ other.Legible ∧ tree.text = "\x7b(for step call else (- 1.5))\x7d" ∧
      tree.text = other.text ∧ tree.erase = other.erase := by
  intro tree other
  have legible {α : Type} {node : Node α}
      (leaves : node.leaves = ["step", "call", "else"].map .identifier ++ [.float 1.5])
      (conditions : node.conditions = []) : node.Legible := by
    refine ⟨fun name among => ?_, fun x among => ?_, by simp [conditions]⟩
    · simp only [leaves, List.map_cons, List.map_nil, List.cons_append, List.nil_append,
        List.mem_cons, TokenKind.identifier.injEq, reduceCtorEq, List.not_mem_nil,
        or_false] at among
      rcases among with rfl | rfl | rfl <;>
        exact ⟨_, _, rfl, by decide +kernel, List.all_eq_true.1 (by decide +kernel)⟩
    · obtain rfl : x = 1.5 := by simpa [leaves] using among
      decide +kernel
  have same : tree.text = other.text := rfl
  refine ⟨legible rfl rfl, legible rfl rfl, ?_, same, ?_⟩
  · decide +kernel
  · exact erase_eq_of_text (legible rfl rfl) (legible rfl rfl) same

-- A clause that depends on the name `else` looks like a last clause.
example :
    let first : Clause (Node Unit) := ⟨.access () "x", ⟨.int () 1, false⟩⟩
    (Node.ifElse () [first, ⟨.access () "else", ⟨.int () 2, false⟩⟩] none).text =
      (Node.ifElse () [first] (some ⟨.int () 2, false⟩)).text := rfl

end Sharp
