import Sharp.Proofs.Grammar.Climbing
import Sharp.Proofs.Tree.Rendering

/-!
Reading back. A rendered expression is an atom, so it is read to its last token whatever follows;
a rendered statement is read up to the closer behind it, and a block up to the first token behind
its separators. One level of a tree takes six levels of nesting at most.
-/
namespace Sharp.Grammar

open Sharp.Grammar.Parser Sharp.Grammar.Rule Sharp.Node

variable {kinds : Kinds} {most depth : Nat} {c d m : Cursor} {shape : Shape}

/-- What it means to read a rendered tree back, for all rows of tokens it stands in. -/
def Recovered (most : Nat) : Place → Shape → Prop
  | .expression, shape => ∀ (kinds : Kinds) (depth : Nat) (c d : Cursor),
      kinds.Reads c shape.render d → depth + 6 * shape.height ≤ most →
      Gives (answer kinds (some most) depth .atom c) shape d
  | .statement, shape => ∀ (kinds : Kinds) (depth : Nat) (c d : Cursor),
      kinds.Reads c shape.render d → (kinds.kindAt d).closes = true →
      depth + 3 + 6 * shape.height ≤ most →
      Gives (answer kinds (some most) depth .statement c) shape d
  | .block, shape => ∀ (kinds : Kinds) (depth n : Nat) (c m d : Cursor),
      kinds.Reads c shape.render m → Skips kinds m n d → (kinds.kindAt d).closes = true →
      depth + 6 * shape.height ≤ most + 3 →
      Gives (answer kinds (some most) depth .block c) shape d

theorem allows_some {depth : Nat} (low : depth ≤ most) :
    Limit.allows (some most) depth = true := by
  simp [Limit.allows, low]

namespace Recovered

theorem expression (recovered : Recovered most .expression shape) (depth : Nat)
    (reads : kinds.Reads c shape.render d) (closes : (kinds.kindAt d).closes = true)
    (low : depth + 3 + 6 * shape.height ≤ most) :
    Gives (answer kinds (some most) depth .expression c) shape d :=
  expression_of_atom closes (recovered kinds (depth + 3) c d reads low) (allows_some (by omega))

/-- A statement that is an expression starts like an atom. -/
theorem bare (recovered : Recovered most .expression shape) : Recovered most .statement shape := by
  intro kinds depth c d reads closes low
  have atom := recovered kinds (depth + 3) c d reads low
  refine statement_of_expression (recovered.expression depth reads closes low) fun word isOne => ?_
  exact (atom_starts atom).2 word (List.mem_cons_of_mem _ (List.mem_cons_of_mem _ isOne))

theorem returnWith {value : Option Shape}
    (recovered : ∀ shape ∈ value, Recovered most .expression shape) :
    Recovered most .statement (.returnWith () value) := by
  intro kinds depth c d reads closes low
  rw [answer_of_free rfl]
  cases value with
  | none =>
    obtain ⟨found, _, rfl⟩ := reads
    refine ⟨.returnWith (.token c) none, statement_eq_ok.2 ?_, rfl⟩
    rw [found]
    exact .inr ⟨expression_fails (@starts_of_closes .expression _ closes), rfl, rfl⟩
  | some shape =>
    obtain ⟨found, _, reads⟩ := reads
    have below : shape.height < Node.height (.returnWith () (some shape)) :=
      height_lt_of_child (by simp [children])
    obtain ⟨tree, answered, rfl⟩ := (recovered shape rfl).expression depth reads closes (by omega)
    refine ⟨.returnWith (.upTo c d) (some tree), statement_eq_ok.2 ?_, rfl⟩
    rw [found]
    exact .inl ⟨tree, answered, rfl⟩

theorem continueLoop : Recovered most .statement (.continueLoop ()) := by
  intro kinds depth c d reads closes low
  obtain ⟨found, _, rfl⟩ := reads
  rw [answer_of_free rfl]
  refine ⟨.continueLoop (.token c), statement_eq_ok.2 ?_, rfl⟩
  rw [found]
  exact ⟨rfl, rfl⟩

theorem breakLoop : Recovered most .statement (.breakLoop ()) := by
  intro kinds depth c d reads closes low
  obtain ⟨found, _, rfl⟩ := reads
  rw [answer_of_free rfl]
  refine ⟨.breakLoop (.token c), statement_eq_ok.2 ?_, rfl⟩
  rw [found]
  exact ⟨rfl, rfl⟩

section Runs

/-- What stands in front of separators and a closer is followed by a closer. -/
theorem closes_of_skips {n : Nat} (skips : Skips kinds m n d)
    (closes : (kinds.kindAt d).closes = true) : (kinds.kindAt m).closes = true := by
  obtain ⟨reads, _⟩ := skips
  cases n with
  | zero =>
    obtain rfl : d = m := reads
    exact closes
  | succ n => exact reads.1 ▸ rfl

/-- In front of words that a closer announces stands a closer, also if there are none. -/
theorem closes_of_announced {mark : TokenKind} {words : List (List TokenKind)}
    (reads : kinds.Reads c (words.flatMap (mark :: ·)) m) (announces : mark.closes = true)
    (closes : (kinds.kindAt m).closes = true) : (kinds.kindAt c).closes = true := by
  cases words with
  | nil =>
    obtain rfl : m = c := reads
    exact closes
  | cons word words => exact reads.1 ▸ announces

/-- Further statements are read as far as the row goes on with them. -/
theorem statements {n : Nat} {rest : List Shape}
    (recovered : ∀ shape ∈ rest, Recovered most .statement shape)
    (low : ∀ shape ∈ rest, depth + 3 + 6 * shape.height ≤ most)
    (reads : kinds.Reads c ((rest.map Node.render).flatMap (.newline :: ·)) m)
    (skips : Skips kinds m n d) (closes : (kinds.kindAt d).closes = true) :
    ∃ trees, Series (nextStatement kinds (answer kinds (some most) depth)) c trees d ∧
      trees.map Node.erase = rest := by
  induction rest generalizing c with
  | nil =>
    obtain rfl : m = c := reads
    exact ⟨[], nextStatement_eq_none.2 ⟨n, skips, .inr (statement_fails closes)⟩, rfl⟩
  | cons shape rest ih =>
    simp only [List.map_cons, List.flatMap_cons, Kinds.reads_append] at reads
    obtain ⟨e, ⟨separator, _, first⟩, reads⟩ := reads
    have follower := closes_of_announced reads rfl (closes_of_skips skips closes)
    obtain ⟨tree, answered, same⟩ := recovered shape (by simp) kinds depth c.next e first follower
      (low shape (by simp))
    obtain ⟨trees, series, others⟩ := ih (fun shape later => recovered shape (by simp [later]))
      (fun shape later => low shape (by simp [later])) reads
    have opens := Spells.kindAt_opens (answer_spells answered) (by simp)
    have single : Skips kinds c 1 c.next :=
      ⟨.single separator (by simp), fun separator => by simp [separator, TokenKind.closes] at opens⟩
    refine ⟨tree :: trees, ⟨e, nextStatement_eq_some.2 ⟨0, c.next, single, answered⟩, series⟩, ?_⟩
    rw [List.map_cons, same, others]

theorem block {shapes : List Shape} (some : shapes ≠ [])
    (recovered : ∀ shape ∈ shapes, Recovered most .statement shape) :
    Recovered most .block (.block () shapes) := by
  intro kinds depth n c m d reads skips closes low
  obtain ⟨first, rest, rfl⟩ := List.exists_cons_of_ne_nil some
  have lower (shape : Shape) (among : shape ∈ first :: rest) :
      depth + 3 + 6 * shape.height ≤ most := by
    have below : shape.height < Node.height (.block () (first :: rest)) :=
      height_lt_of_child among
    omega
  have word : Node.render (.block () (first :: rest)) =
      first.render ++ (rest.map Node.render).flatMap (.newline :: ·) := by
    rw [Node.render, renderAll_eq, List.map_cons, intercalate_cons]
  rw [word, Kinds.reads_append] at reads
  obtain ⟨e, readsFirst, reads⟩ := reads
  have follower := closes_of_announced reads rfl (closes_of_skips skips closes)
  obtain ⟨tree, answered, same⟩ := recovered first (by simp) kinds depth c e readsFirst follower
    (lower first (by simp))
  obtain ⟨trees, series, others⟩ := statements
    (fun shape later => recovered shape (by simp [later]))
    (fun shape later => lower shape (by simp [later])) reads skips closes
  have opens := Spells.kindAt_opens (answer_spells answered) (by simp)
  have single : Skips kinds c 0 c :=
    ⟨rfl, fun separator => by simp [separator, TokenKind.closes] at opens⟩
  rw [answer_of_free rfl]
  refine ⟨.block ⟨(Node.place tree).first, d⟩ (tree :: trees), (block_eq_ok (answer_moves _ _)).2
    ⟨0, c, tree, e, trees, single, answered, series, rfl⟩, ?_⟩
  rw [erase_block, List.map_cons, same, others]

/-- Further items are read as long as commas announce them. -/
theorem furtherItems {rest : List Shape}
    (recovered : ∀ shape ∈ rest, Recovered most .expression shape)
    (low : ∀ shape ∈ rest, depth + 3 + 6 * shape.height ≤ most)
    (reads : kinds.Reads c ((rest.map Node.render).flatMap (.symbol .comma :: ·)) d)
    (closes : (kinds.kindAt d).closes = true) (other : kinds.kindAt d ≠ .symbol .comma) :
    ∃ trees, Series (turnIf kinds isComma fun c =>
        answer kinds (some most) depth .expression c.next) c trees d ∧
      trees.map Node.erase = rest := by
  induction rest generalizing c with
  | nil =>
    obtain rfl : d = c := reads
    have ends : isComma (kinds.kindAt d) = false := by
      simpa [isComma, ← Bool.not_eq_true] using other
    exact ⟨[], series_nil.2 ⟨ends, rfl⟩, rfl⟩
  | cons shape rest ih =>
    simp only [List.map_cons, List.flatMap_cons, Kinds.reads_append] at reads
    obtain ⟨e, ⟨comma, _, first⟩, reads⟩ := reads
    have follower := closes_of_announced reads rfl closes
    obtain ⟨tree, answered, same⟩ := (recovered shape (by simp)).expression depth first follower
      (low shape (by simp))
    obtain ⟨trees, series, others⟩ := ih (fun shape later => recovered shape (by simp [later]))
      (fun shape later => low shape (by simp [later])) reads
    refine ⟨tree :: trees, series_cons.2 ⟨by simp [isComma, comma], e, answered, series⟩, ?_⟩
    rw [List.map_cons, same, others]

/-- Items between brackets are read up to the closing one. -/
theorem items {close : Symbol} (closer : (TokenKind.symbol close).closes = true)
    (other : close ≠ .comma) {shapes : List Shape}
    (recovered : ∀ shape ∈ shapes, Recovered most .expression shape)
    (low : ∀ shape ∈ shapes, depth + 3 + 6 * shape.height ≤ most)
    (reads : kinds.Reads c (commaSeparated (shapes.map Node.render) ++ [.symbol close]) d) :
    ∃ trees, (enclosed kinds.size close).eval kinds (answer kinds (some most) depth) c =
      .ok ⟨trees, d⟩ ∧ trees.map Node.erase = shapes := by
  obtain ⟨m, inside, closed, _, rfl⟩ := Kinds.reads_append.1 reads
  clear reads
  cases shapes with
  | nil =>
    obtain rfl : m = c := inside
    exact ⟨[], (enclosed_eq_ok (answer_moves _ _)).2 (.inl ⟨closed, rfl, rfl⟩), rfl⟩
  | cons first rest =>
    rw [commaSeparated, List.map_cons, intercalate_cons, Kinds.reads_append] at inside
    obtain ⟨e, readsFirst, reads⟩ := inside
    have follower := closes_of_announced reads rfl (closed ▸ closer)
    obtain ⟨tree, answered, same⟩ := (recovered first (by simp)).expression depth readsFirst
      follower (low first (by simp))
    obtain ⟨trees, series, others⟩ :=
      furtherItems (fun shape later => recovered shape (by simp [later]))
        (fun shape later => low shape (by simp [later])) reads (closed ▸ closer)
        (by simpa [closed] using other)
    have opens := Spells.kindAt_opens (answer_spells answered) (by simp)
    refine ⟨tree :: trees, (enclosed_eq_ok (answer_moves _ _)).2 (.inr ⟨fun closing => ?_,
      tree, e, trees, m, answered, series, closed, rfl, rfl⟩), ?_⟩
    · rw [closing, closer] at opens
      simp at opens
    · rw [List.map_cons, same, others]

end Runs

section Bodies

variable {found : Body Shape}

theorem body (recovered : Recovered most found.place found.node) (depth : Nat)
    (reads : kinds.Reads c (inBody found.isBlock found.node.render) d)
    (closes : (kinds.kindAt d).closes = true) (other : kinds.kindAt d ≠ .newline)
    (low : depth + 3 + 6 * found.node.height ≤ most) :
    ∃ tree, answer kinds (some most) depth .body c = .ok ⟨tree, d⟩ ∧
      tree.map Node.erase = found := by
  rw [answer_of_free rfl]
  obtain ⟨node, isBlock⟩ := found
  cases isBlock with
  | true =>
    obtain ⟨separator, _, lines⟩ := reads
    obtain ⟨m, inside, after, _, rfl⟩ := Kinds.reads_append.1 lines
    have trailing : Skips kinds m 1 m.next := ⟨.single after (by simp), other⟩
    obtain ⟨tree, answered, rfl⟩ := recovered kinds depth 1 c.next m m.next inside trailing closes
      (by omega)
    refine ⟨⟨tree, true⟩, body_eq_ok.2 ?_, rfl⟩
    rw [if_pos separator]
    exact ⟨tree, answered, rfl⟩
  | false =>
    obtain ⟨tree, answered, rfl⟩ := recovered kinds depth c d reads closes low
    have opens := Spells.kindAt_opens (answer_spells answered) (by simp)
    refine ⟨⟨tree, false⟩, body_eq_ok.2 ?_, rfl⟩
    rw [if_neg fun separator => by simp [separator, TokenKind.closes] at opens]
    exact ⟨tree, answered, rfl⟩

theorem closedBody (recovered : Recovered most found.place found.node) (depth : Nat)
    (reads : kinds.Reads c (inBody found.isBlock found.node.render ++ closing found.isBlock) d)
    (closes : (kinds.kindAt d).closes = true) (other : kinds.kindAt d ≠ .newline)
    (low : depth + 3 + 6 * found.node.height ≤ most) :
    ∃ tree, answer kinds (some most) depth .closedBody c = .ok ⟨tree, d⟩ ∧
      tree.map Node.erase = found := by
  obtain ⟨m, inside, ends⟩ := Kinds.reads_append.1 reads
  rw [answer_of_free rfl]
  cases isBlock : found.isBlock with
  | true =>
    rw [isBlock] at ends
    obtain ⟨closed, _, after⟩ := ends
    obtain ⟨tree, answered, rfl⟩ := recovered.body depth inside (by rw [closed]; rfl)
      (by simp [closed]) low
    refine ⟨tree, closedBody_eq_ok.2 ⟨m, answered, ?_⟩, rfl⟩
    rw [if_pos (Body.map_isBlock .. ▸ isBlock)]
    exact ⟨closed, after⟩
  | false =>
    rw [isBlock] at ends
    obtain rfl : d = m := ends
    obtain ⟨tree, answered, rfl⟩ := recovered.body depth inside closes other low
    refine ⟨tree, closedBody_eq_ok.2 ⟨d, answered, ?_⟩, rfl⟩
    rw [if_neg (Bool.eq_false_iff.1 (Body.map_isBlock .. ▸ isBlock))]

end Bodies

section Brackets

/-- Whatever is read as an expression between round brackets is an atom with them. -/
theorem brackets {word : List TokenKind} (reads : kinds.Reads c (inBrackets word) d)
    (inside : ∀ m, kinds.Reads c.next word m → kinds.kindAt m = .symbol .closeRound →
      Gives (answer kinds (some most) depth .expression c.next) shape m) :
    Gives (answer kinds (some most) depth .atom c) shape d := by
  obtain ⟨opened, _, rest⟩ := reads
  obtain ⟨m, word, closed, _, rfl⟩ := Kinds.reads_append.1 rest
  obtain ⟨tree, answered, same⟩ := inside m word closed
  rw [answer_of_free rfl]
  refine ⟨tree, atom_eq_ok.2 ?_, same⟩
  rw [opened]
  exact ⟨m, answered, closed, rfl⟩

/-- Constructs that are atoms by themselves are carried up to an expression first. -/
theorem bracketedAtom {word : List TokenKind} (reads : kinds.Reads c (inBrackets word) d)
    (low : depth + 3 ≤ most)
    (inside : ∀ m, kinds.Reads c.next word m → kinds.kindAt m = .symbol .closeRound →
      Gives (answer kinds (some most) (depth + 3) .atom c.next) shape m) :
    Gives (answer kinds (some most) depth .atom c) shape d :=
  brackets reads fun m reads closed =>
    expression_of_atom (closed ▸ rfl) (inside m reads closed) (allows_some low)

end Brackets

section Expressions

theorem leaf {kind : TokenKind} {build : Extent → Tree}
    (isLeaf : ∀ place, leafAt place kind = some (build place))
    (word : shape.render = [kind]) (same : ∀ place, (build place).erase = shape) :
    Recovered most .expression shape := by
  intro kinds depth c d reads low
  rw [word] at reads
  obtain ⟨found, _, rfl⟩ := reads
  rw [answer_of_free rfl]
  refine ⟨build (.token c), atom_eq_ok.2 ?_, same _⟩
  have leaf := isLeaf (.token c)
  rw [found]
  split <;> simp_all [leafAt]

theorem list {shapes : List Shape}
    (recovered : ∀ shape ∈ shapes, Recovered most .expression shape) :
    Recovered most .expression (.list () shapes) := by
  intro kinds depth c d reads low
  have lower (shape : Shape) (among : shape ∈ shapes) : depth + 3 + 6 * shape.height ≤ most := by
    have below : shape.height < Node.height (.list () shapes) := height_lt_of_child among
    omega
  rw [Node.render, renderAll_eq] at reads
  obtain ⟨opened, _, inside⟩ := reads
  obtain ⟨trees, enclosed, rfl⟩ := items rfl (by simp) recovered lower inside
  rw [answer_of_free rfl]
  refine ⟨.list (.upTo c d) trees, atom_eq_ok.2 ?_, erase_list trees⟩
  rw [opened]
  simp only []
  rw [answer_of_free rfl]
  exact listing_eq_ok.2 ⟨opened, trees, enclosed, rfl⟩

theorem assign {name : Ident Unit} (recovered : Recovered most .expression shape) :
    Recovered most .expression (.assign () name shape) := by
  intro kinds depth c d reads low
  have below : shape.height < Node.height (.assign () name shape) :=
    height_lt_of_child (by simp [children])
  refine brackets reads fun m reads closed => ?_
  obtain ⟨found, _, named, _, assigned, _, reads⟩ := reads
  obtain ⟨value, answered, rfl⟩ := recovered.expression (depth + 1) reads (closed ▸ rfl)
    (by omega)
  rw [answer_of_guarded rfl (allows_some (by omega))]
  exact ⟨.assign (.upTo c.next m) ⟨name.name, .token c.next.next⟩ value,
    (expression_eq_ok (answer_moves _ _)).2
      (.inl ⟨found, name.name, value, named, assigned, answered, rfl⟩), rfl⟩

theorem binary {op : BinaryOp} {one other : Shape} (left : Recovered most .expression one)
    (right : Recovered most .expression other) :
    Recovered most .expression (.binary () op one other) := by
  intro kinds depth c d reads low
  have first : one.height < Node.height (.binary () op one other) :=
    height_lt_of_child (by simp [children])
  have second : other.height < Node.height (.binary () op one other) :=
    height_lt_of_child (by simp [children])
  refine brackets reads fun m reads closed => ?_
  obtain ⟨e, reads, sign, _, readsOther⟩ := Kinds.reads_append.1 reads
  exact expression_of_operands (closed ▸ rfl) (left kinds (depth + 3) _ _ reads (by omega)) sign
    (right kinds (depth + 3) _ _ readsOther (by omega))
    (right kinds (depth + 4) _ _ readsOther (by omega)) (allows_some (by omega))

theorem unary {op : UnaryOp} (recovered : Recovered most .expression shape) :
    Recovered most .expression (.unary () op shape) := by
  intro kinds depth c d reads low
  have below : shape.height < Node.height (.unary () op shape) :=
    height_lt_of_child (by simp [children])
  refine brackets reads fun m reads closed => ?_
  obtain ⟨sign, _, reads⟩ := reads
  exact expression_of_operand (closed ▸ rfl) sign (recovered kinds (depth + 4) _ _ reads (by omega))
    (allows_some (by omega))

theorem call {callee : Shape} {args : List Shape} (function : Recovered most .expression callee)
    (recovered : ∀ arg ∈ args, Recovered most .expression arg) :
    Recovered most .expression (.call () callee args) := by
  intro kinds depth c d reads low
  have lower (shape : Shape) (among : shape ∈ callee :: args) :
      depth + 6 + 6 * shape.height ≤ most := by
    have below : shape.height < Node.height (.call () callee args) := height_lt_of_child among
    omega
  have first := lower callee (by simp)
  rw [Node.render, renderAll_eq] at reads
  refine brackets reads fun m inside closed => ?_
  obtain ⟨e, front, opened, _, back⟩ := Kinds.reads_append.1 inside
  have atom := function kinds (depth + 3) c.next e front (by omega)
  obtain ⟨unsigned, others⟩ := atom_starts atom
  obtain ⟨tree, answered, rfl⟩ := atom
  obtain ⟨trees, enclosed, rfl⟩ := items rfl (by simp) recovered
    (fun arg among => lower arg (by simp [among])) back
  refine expression_of_application (closed ▸ rfl) ?_ (allows_some (by omega)) unsigned
    (others _ (by simp)) (others _ (by simp))
  rw [answer_of_free rfl]
  refine ⟨.call (.upTo c.next m) tree trees, application_eq_ok.2
    ⟨tree, e, answered, .inl ⟨opened, trees, enclosed, rfl⟩⟩, erase_call tree trees⟩

end Expressions

section Choices

theorem clause {word : Keyword} {found : Clause Shape}
    (condition : Recovered most .expression found.condition)
    (recovered : Recovered most found.body.place found.body.node) (depth : Nat)
    (reads : kinds.Reads c (.keyword word :: found.condition.render ++
      .keyword .then :: inBody found.body.isBlock found.body.node.render) d)
    (closes : (kinds.kindAt d).closes = true) (other : kinds.kindAt d ≠ .newline)
    (low : depth + 3 + 6 * found.condition.height ≤ most)
    (also : depth + 3 + 6 * found.body.node.height ≤ most) :
    ∃ tree, (Parser.clause word).eval kinds (answer kinds (some most) depth) c = .ok ⟨tree, d⟩ ∧
      tree.map Node.erase = found := by
  obtain ⟨m, ⟨first, _, front⟩, thens, _, back⟩ := Kinds.reads_append.1 reads
  obtain ⟨test, tested, same⟩ := condition.expression depth front (by rw [thens]; rfl) low
  obtain ⟨body, answered, bodySame⟩ := recovered.body depth back closes other also
  refine ⟨⟨test, body⟩, clause_eq_ok.2 ⟨first, m, tested, thens, answered⟩, ?_⟩
  rw [Clause.map, same, bodySame]

/-- A clause is followed by a further one or by what follows them all. -/
theorem clauses_shut {rest : List (Clause Shape)}
    (reads : kinds.Reads c (renderClauses .elif rest) d)
    (closes : (kinds.kindAt d).closes = true) (other : kinds.kindAt d ≠ .newline) :
    (kinds.kindAt c).closes = true ∧ kinds.kindAt c ≠ .newline := by
  cases rest with
  | nil =>
    obtain rfl : d = c := reads
    exact ⟨closes, other⟩
  | cons next rest =>
    have found : kinds.kindAt c = .keyword .elif := reads.1
    simp [found, TokenKind.closes]

theorem furtherClauses {rest : List (Clause Shape)}
    (conditions : ∀ found ∈ rest, Recovered most .expression found.condition)
    (bodies : ∀ found ∈ rest, Recovered most found.body.place found.body.node)
    (low : ∀ found ∈ rest, depth + 3 + 6 * found.condition.height ≤ most ∧
      depth + 3 + 6 * found.body.node.height ≤ most)
    (reads : kinds.Reads c (renderClauses .elif rest) d)
    (closes : (kinds.kindAt d).closes = true) (other : kinds.kindAt d ≠ .newline)
    (last : kinds.kindAt d ≠ .keyword .elif) :
    ∃ trees, Series (turnIf kinds isElif
        ((Parser.clause .elif).eval kinds (answer kinds (some most) depth))) c trees d ∧
      trees.map (Clause.map Node.erase) = rest := by
  induction rest generalizing c with
  | nil =>
    obtain rfl : d = c := reads
    have ends : isElif (kinds.kindAt d) = false := by
      simpa [isElif, ← Bool.not_eq_true] using last
    exact ⟨[], series_nil.2 ⟨ends, rfl⟩, rfl⟩
  | cons first rest ih =>
    have found : kinds.kindAt c = .keyword .elif := reads.1
    rw [renderClauses_cons, Kinds.reads_append] at reads
    obtain ⟨e, front, back⟩ := reads
    obtain ⟨shut, also⟩ := clauses_shut back closes other
    obtain ⟨tree, answered, same⟩ := (conditions first (by simp)).clause (bodies first (by simp))
      depth front shut also (low first (by simp)).1 (low first (by simp)).2
    obtain ⟨trees, series, others⟩ := ih (fun found later => conditions found (by simp [later]))
      (fun found later => bodies found (by simp [later]))
      (fun found later => low found (by simp [later])) back
    refine ⟨tree :: trees, series_cons.2 ⟨by simp [isElif, found], e, answered, series⟩, ?_⟩
    rw [List.map_cons, same, others]

/-- How the last clause of a choice is closed or gets an alternative. -/
def inAlternative (isBlock : Bool) : Option (Body Shape) → List TokenKind
  | none => closing isBlock
  | some last => .keyword .else :: inBody last.isBlock last.node.render ++ closing last.isBlock

theorem alternative_shuts {isBlock : Bool} {last : Option (Body Shape)}
    (reads : kinds.Reads c (inAlternative isBlock last) d)
    (closed : kinds.kindAt d = .symbol .closeRound) :
    (kinds.kindAt c).closes = true ∧ kinds.kindAt c ≠ .newline ∧
      kinds.kindAt c ≠ .keyword .elif := by
  cases last with
  | some last =>
    have found : kinds.kindAt c = .keyword .else := reads.1
    simp [found, TokenKind.closes]
  | none =>
    cases isBlock with
    | true =>
      have found : kinds.kindAt c = .keyword .end := reads.1
      simp [found, TokenKind.closes]
    | false =>
      obtain rfl : d = c := reads
      simp [closed, TokenKind.closes]

theorem alternative {clauses : List (Clause Tree)} {last : Option (Body Shape)}
    (recovered : ∀ body ∈ last, Recovered most body.place body.node)
    (low : ∀ body ∈ last, depth + 3 + 6 * body.node.height ≤ most)
    (reads : kinds.Reads c (inAlternative (endsInBlock clauses) last) d)
    (closed : kinds.kindAt d = .symbol .closeRound) :
    ∃ tree, (otherwise clauses).eval kinds (answer kinds (some most) depth) c = .ok ⟨tree, d⟩ ∧
      tree.map (Body.map Node.erase) = last := by
  cases last with
  | some last =>
    obtain ⟨found, _, inside⟩ := reads
    obtain ⟨tree, answered, rfl⟩ := (recovered last rfl).closedBody depth inside
      (by rw [closed]; rfl) (by simp [closed]) (low last rfl)
    exact ⟨some tree, otherwise_eq_ok.2 (.inr (.inl ⟨found, tree, answered, rfl⟩)), rfl⟩
  | none =>
    cases isBlock : endsInBlock clauses with
    | true =>
      rw [isBlock] at reads
      obtain ⟨found, _, rfl⟩ := reads
      exact ⟨none, otherwise_eq_ok.2 (.inl ⟨isBlock, found, rfl, rfl⟩), rfl⟩
    | false =>
      rw [isBlock] at reads
      obtain rfl : d = c := reads
      exact ⟨none, otherwise_eq_ok.2 (.inr (.inr ⟨isBlock, by simp [closed], rfl, rfl⟩)), rfl⟩

theorem render_ifElse (clauses : List (Clause Shape)) (last : Option (Body Shape)) :
    Node.render (.ifElse () clauses last) =
      inBrackets (renderClauses .if clauses ++ inAlternative (lastIsBlock clauses) last) := by
  rcases last with _ | ⟨node, isBlock⟩ <;> rfl

theorem lastIsBlock_map (clauses : List (Clause Tree)) :
    lastIsBlock (clauses.map (Clause.map Node.erase)) = endsInBlock clauses := by
  rw [lastIsBlock, List.getLast?_map, endsInBlock]
  cases clauses.getLast? <;> rfl

theorem ifElse {clauses : List (Clause Shape)} {last : Option (Body Shape)} (some : clauses ≠ [])
    (conditions : ∀ found ∈ clauses, Recovered most .expression found.condition)
    (bodies : ∀ found ∈ clauses, Recovered most found.body.place found.body.node)
    (recovered : ∀ body ∈ last, Recovered most body.place body.node) :
    Recovered most .expression (.ifElse () clauses last) := by
  intro kinds depth c d reads low
  have lower (found : Clause Shape) (among : found ∈ clauses) :
      depth + 6 + 6 * found.condition.height ≤ most ∧
        depth + 6 + 6 * found.body.node.height ≤ most := by
    have within (child) (which : child ∈ [found.condition, found.body.node]) :
        child.height < Node.height (.ifElse () clauses last) :=
      height_lt_of_child (List.mem_append_left _ (List.mem_flatMap.2 ⟨found, among, which⟩))
    have test := within found.condition (by simp)
    have body := within found.body.node (by simp)
    omega
  have lowest (body : Body Shape) (isLast : body ∈ last) :
      depth + 6 + 6 * body.node.height ≤ most := by
    have below : body.node.height < Node.height (.ifElse () clauses last) :=
      height_lt_of_child (by simp_all [children])
    omega
  obtain ⟨first, rest, rfl⟩ := List.exists_cons_of_ne_nil some
  have room := (lower first (by simp)).1
  rw [render_ifElse] at reads
  refine bracketedAtom reads (by omega) fun m inside closed => ?_
  obtain ⟨e, front, back⟩ := Kinds.reads_append.1 inside
  have opens : kinds.kindAt c.next = .keyword .if := front.1
  obtain ⟨closes, other, noMore⟩ := alternative_shuts back closed
  rw [renderClauses_cons, Kinds.reads_append] at front
  obtain ⟨g, front, middle⟩ := front
  obtain ⟨shut, also⟩ := clauses_shut middle closes other
  obtain ⟨tree, answered, rfl⟩ := (conditions first (by simp)).clause (bodies first (by simp))
    (depth + 3) front shut also (lower first (by simp)).1 (lower first (by simp)).2
  obtain ⟨trees, series, rfl⟩ := furtherClauses
    (fun found later => conditions found (by simp [later]))
    (fun found later => bodies found (by simp [later]))
    (fun found later => lower found (by simp [later])) middle closes other noMore
  rw [← List.map_cons, lastIsBlock_map] at back
  obtain ⟨ending, ended, rfl⟩ := alternative recovered lowest back closed
  rw [answer_of_free rfl]
  refine ⟨.ifElse (.upTo c.next m) (tree :: trees) ending, atom_eq_ok.2 ?_, erase_ifElse _ _⟩
  rw [opens]
  simp only []
  rw [answer_of_free rfl]
  exact (conditional_eq_ok (answer_moves _ _)).2
    ⟨tree, g, trees, e, ending, answered, series, ended, rfl⟩

end Choices

section Loops

theorem whileLoop {condition : Shape} {found : Body Shape}
    (test : Recovered most .expression condition)
    (recovered : Recovered most found.place found.node) :
    Recovered most .expression (.whileLoop () condition found) := by
  intro kinds depth c d reads low
  have lower (child) (which : child ∈ [condition, found.node]) :
      depth + 6 + 6 * child.height ≤ most := by
    have below : child.height < Node.height (.whileLoop () condition found) :=
      height_lt_of_child which
    omega
  have first := lower condition (by simp)
  refine bracketedAtom reads (by omega) fun m inside closed => ?_
  rw [List.append_assoc] at inside
  obtain ⟨e, ⟨opens, _, front⟩, thens, _, back⟩ := Kinds.reads_append.1 inside
  obtain ⟨tree, tested, rfl⟩ := test.expression (depth + 3) front (by rw [thens]; rfl) first
  obtain ⟨body, answered, rfl⟩ := recovered.closedBody (depth + 3) back (by rw [closed]; rfl)
    (by simp [closed]) (lower _ (by simp))
  rw [answer_of_free rfl]
  refine ⟨.whileLoop (.upTo c.next m) tree body, atom_eq_ok.2 ?_, rfl⟩
  rw [opens]
  simp only []
  rw [answer_of_free rfl]
  exact whileLoop_eq_ok.2 ⟨opens, tree, e, body, tested, thens, answered, rfl⟩

def inStride : Option Shape → List TokenKind
  | none => []
  | some step => .keyword .step :: step.render

theorem stride {step : Option Shape}
    (recovered : ∀ value ∈ step, Recovered most .expression value)
    (low : ∀ value ∈ step, depth + 3 + 6 * value.height ≤ most)
    (reads : kinds.Reads c (inStride step) d) (thens : kinds.kindAt d = .keyword .then) :
    ∃ tree, Parser.stride.eval kinds (answer kinds (some most) depth) c = .ok ⟨tree, d⟩ ∧
      tree.map Node.erase = step := by
  cases step with
  | none =>
    obtain rfl : d = c := reads
    exact ⟨none, stride_eq_ok.2 (.inr ⟨by simp [thens], rfl, rfl⟩), rfl⟩
  | some value =>
    obtain ⟨found, _, inside⟩ := reads
    obtain ⟨tree, answered, rfl⟩ := (recovered value rfl).expression depth inside
      (by rw [thens]; rfl) (low value rfl)
    exact ⟨some tree, stride_eq_ok.2 (.inl ⟨found, tree, answered, rfl⟩), rfl⟩

theorem render_forLoop (name : Ident Unit) (start stop : Shape) (step : Option Shape)
    (found : Body Shape) :
    Node.render (.forLoop () name start stop step found) =
      inBrackets (.keyword .for :: .identifier name.name :: .symbol .assign ::
        (start.render ++ .keyword .to :: (stop.render ++ (inStride step ++ .keyword .then ::
          (inBody found.isBlock found.node.render ++ closing found.isBlock))))) := by
  cases step <;> simp [Node.render, inStride]

theorem forLoop {name : Ident Unit} {start stop : Shape} {step : Option Shape} {found : Body Shape}
    (lower : Recovered most .expression start) (upper : Recovered most .expression stop)
    (strides : ∀ value ∈ step, Recovered most .expression value)
    (recovered : Recovered most found.place found.node) :
    Recovered most .expression (.forLoop () name start stop step found) := by
  intro kinds depth c d reads low
  have room (child) (isChild : child ∈ Node.children (.forLoop () name start stop step found)) :
      depth + 6 + 6 * child.height ≤ most := by
    have below := height_lt_of_child isChild
    omega
  have first := room start (by simp [children])
  rw [render_forLoop] at reads
  refine bracketedAtom reads (by omega) fun m inside closed => ?_
  obtain ⟨opens, _, named, _, assigned, _, inside⟩ := inside
  obtain ⟨e, front, upTo, _, later⟩ := Kinds.reads_append.1 inside
  obtain ⟨g, middle, last⟩ := Kinds.reads_append.1 later
  obtain ⟨h, stepping, thens, _, back⟩ := Kinds.reads_append.1 last
  have follower : (kinds.kindAt g).closes = true := by
    cases step with
    | none =>
      obtain rfl : h = g := stepping
      rw [thens]
      rfl
    | some value => exact stepping.1 ▸ rfl
  obtain ⟨one, starts, rfl⟩ := lower.expression (depth + 3) front (by rw [upTo]; rfl) first
  obtain ⟨other, stops, rfl⟩ := upper.expression (depth + 3) middle follower
    (room _ (by simp [children]))
  obtain ⟨by_, strided, rfl⟩ := stride strides
    (fun value isStep => room value (by simp_all [children])) stepping thens
  obtain ⟨body, answered, rfl⟩ := recovered.closedBody (depth + 3) back (by rw [closed]; rfl)
    (by simp [closed]) (room _ (by simp [children]))
  rw [answer_of_free rfl]
  refine ⟨.forLoop (.upTo c.next m) ⟨name.name, .token c.next.next⟩ one other by_ body,
    atom_eq_ok.2 ?_, erase_forLoop _ _ _ _⟩
  rw [opens]
  simp only []
  rw [answer_of_free rfl]
  exact forLoop_eq_ok.2 ⟨opens, name.name, one, e, other, g, by_, h, body, named, assigned, starts,
    upTo, stops, strided, thens, answered, rfl⟩

end Loops

section Functions

theorem functionName {name : Option (Ident Unit)} {answers : Answers}
    (reads : kinds.Reads c (nameList name.toList ++ [.symbol .openRound]) d) :
    ∃ found, Parser.functionName.eval kinds answers c = .ok ⟨found, d⟩ ∧
      found.map (Ident.map fun _ => ()) = name := by
  cases name with
  | none =>
    obtain ⟨opened, _, rfl⟩ := reads
    exact ⟨none, functionName_eq_ok.2 (.inr ⟨opened, rfl, rfl⟩), rfl⟩
  | some name =>
    obtain ⟨named, _, opened, _, rfl⟩ := reads
    exact ⟨some ⟨name.name, .token c⟩,
      functionName_eq_ok.2 (.inl ⟨name.name, named, opened, rfl, rfl⟩), rfl⟩

theorem params {names : List (Ident Unit)} {answers : Answers}
    (reads : kinds.Reads c (nameList names ++ [.symbol .closeRound]) d) :
    ∃ found, (Parser.params kinds.size).eval kinds answers c = .ok ⟨found, d⟩ ∧
      found.map (Ident.map fun _ => ()) = names := by
  obtain ⟨m, inside, closed, _, rfl⟩ := Kinds.reads_append.1 reads
  clear reads
  have grown (first : Ident Unit) (rest : List (Ident Unit)) (c : Cursor)
      (reads : kinds.Reads c (nameList (first :: rest)) m) :
      kinds.kindAt c = .identifier first.name ∧ ∃ found,
        Series (turnIf kinds isComma fun c => identifier.eval kinds answers c.next) c.next found m ∧
          found.map (Ident.map fun _ => ()) = rest := by
    induction rest generalizing first c with
    | nil =>
      obtain ⟨named, _, rfl⟩ := reads
      have ends : isComma (kinds.kindAt c.next) = false := by
        simp [isComma, closed, isSymbol, TokenClass.admits]
      exact ⟨named, [], series_nil.2 ⟨ends, rfl⟩, rfl⟩
    | cons next rest ih =>
      obtain ⟨named, _, comma, _, reads⟩ := reads
      obtain ⟨other, found, series, same⟩ := ih next _ reads
      have goesOn : isComma (kinds.kindAt c.next) = true := by simp [isComma, comma]
      refine ⟨named, ⟨next.name, .token c.next.next⟩ :: found, series_cons.2 ⟨goesOn, _,
        identifier_eq_ok.2 ⟨other, rfl, rfl⟩, series⟩, ?_⟩
      rw [List.map_cons, same]
      rfl
  cases names with
  | nil =>
    obtain rfl : m = c := inside
    exact ⟨[], params_eq_ok.2 (.inr ⟨closed, rfl, rfl⟩), rfl⟩
  | cons first rest =>
    obtain ⟨named, found, series, rfl⟩ := grown first rest c inside
    exact ⟨⟨first.name, .token c⟩ :: found, params_eq_ok.2 (.inl ⟨_, _, found, m,
      identifier_eq_ok.2 ⟨named, rfl, rfl⟩, series, closed, rfl, rfl⟩), rfl⟩

def inFunction (found : Body Shape) : List TokenKind :=
  if found.isBlock then inBody true found.node.render ++ closing true
  else .symbol .arrow :: found.node.render

theorem render_function (name : Option (Ident Unit)) (names : List (Ident Unit))
    (found : Body Shape) :
    Node.render (.function () name names found) =
      inBrackets (.keyword .fun :: ((nameList name.toList ++ [.symbol .openRound]) ++
        ((nameList names ++ [.symbol .closeRound]) ++ inFunction found))) := by
  simp [Node.render, inFunction]

theorem functionBody {found : Body Shape}
    (recovered : Recovered most (if found.isBlock then .block else .expression) found.node)
    (depth : Nat) (reads : kinds.Reads c (inFunction found) d)
    (closed : kinds.kindAt d = .symbol .closeRound)
    (low : depth + 3 + 6 * found.node.height ≤ most) :
    ∃ tree, Parser.functionBody.eval kinds (answer kinds (some most) depth) c = .ok ⟨tree, d⟩ ∧
      tree.map Node.erase = found := by
  obtain ⟨node, isBlock⟩ := found
  cases isBlock with
  | true =>
    obtain ⟨m, ⟨separator, _, lines⟩, ends, _, rfl⟩ := Kinds.reads_append.1 reads
    obtain ⟨e, inside, after, _, rfl⟩ := Kinds.reads_append.1 lines
    have trailing : Skips kinds e 1 e.next := ⟨.single after (by simp), by simp [ends]⟩
    obtain ⟨tree, answered, rfl⟩ := recovered kinds depth 1 c.next e e.next inside trailing
      (by rw [ends]; rfl) (by omega)
    exact ⟨⟨tree, true⟩, functionBody_eq_ok.2
      (.inr ⟨separator, tree, e.next, answered, ends, rfl, rfl⟩), rfl⟩
  | false =>
    obtain ⟨arrow, _, inside⟩ := reads
    obtain ⟨tree, answered, rfl⟩ := Recovered.expression recovered depth inside
      (by rw [closed]; rfl) low
    exact ⟨⟨tree, false⟩, functionBody_eq_ok.2 (.inl ⟨arrow, tree, answered, rfl⟩), rfl⟩

theorem function {name : Option (Ident Unit)} {names : List (Ident Unit)} {found : Body Shape}
    (recovered : Recovered most (if found.isBlock then .block else .expression) found.node) :
    Recovered most .expression (.function () name names found) := by
  intro kinds depth c d reads low
  have below : found.node.height < Node.height (.function () name names found) :=
    height_lt_of_child (by simp [children])
  rw [render_function] at reads
  refine bracketedAtom reads (by omega) fun m inside closed => ?_
  obtain ⟨opens, _, rest⟩ := inside
  obtain ⟨e, front, others⟩ := Kinds.reads_append.1 rest
  obtain ⟨g, middle, back⟩ := Kinds.reads_append.1 others
  obtain ⟨title, titled, rfl⟩ := functionName front
  obtain ⟨args, listed, rfl⟩ := params middle
  obtain ⟨body, answered, rfl⟩ := functionBody recovered (depth + 3) back closed (by omega)
  rw [answer_of_free rfl]
  refine ⟨.function (.upTo c.next m) title args body, atom_eq_ok.2 ?_, erase_function _ _ _⟩
  rw [opens]
  simp only []
  rw [answer_of_free rfl]
  exact function_eq_ok.2 ⟨opens, title, e, args, g, body, titled, listed, answered, rfl⟩

end Functions

end Recovered

/-- Every well-formed tree is read back, however deep it is nested in others. -/
theorem recovered_of_wellFormed {place : Place} {shape : Shape}
    (wellFormed : WellFormed place shape) : Recovered most place shape := by
  induction wellFormed with
  | block some _ ih => exact Recovered.block some ih
  | bare _ ih => exact ih.bare
  | returnWith _ ih => exact Recovered.returnWith ih
  | continueLoop => exact Recovered.continueLoop
  | breakLoop => exact Recovered.breakLoop
  | int => exact Recovered.leaf (fun _ => rfl) rfl fun _ => rfl
  | float => exact Recovered.leaf (fun _ => rfl) rfl fun _ => rfl
  | string => exact Recovered.leaf (fun _ => rfl) rfl fun _ => rfl
  | access => exact Recovered.leaf (fun _ => rfl) rfl fun _ => rfl
  | list _ ih => exact Recovered.list ih
  | assign _ ih => exact ih.assign
  | binary _ _ left right => exact left.binary right
  | unary _ ih => exact ih.unary
  | ifElse some _ _ _ conditions bodies last => exact Recovered.ifElse some conditions bodies last
  | forLoop _ _ _ _ start stop step body => exact start.forLoop stop step body
  | whileLoop _ _ condition body => exact condition.whileLoop body
  | function _ ih | functionBlock _ ih => exact Recovered.function ih
  | call _ _ callee args => exact callee.call args

end Sharp.Grammar
