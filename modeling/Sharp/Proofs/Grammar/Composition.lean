import Sharp.Proofs.Grammar.Course
import Sharp.Proofs.Grammar.Following
import Sharp.Proofs.Grammar.Shifting

/-!
Programs one behind the other. Where a separator and a second program stand in place of the end of
a first one, the first is read as before, unless what stands behind one of its bare returns could
have been a value, and the second one is read as if it stood alone, only further on. If nothing can
be read of the second one, it is its first token that is wrong.
-/
namespace Sharp

namespace Grammar

open Sharp.Grammar.Parser

/-- A row that goes on with a separator and a last row where a first one ends. -/
structure Joins (first last whole : Kinds) (k : Nat) : Prop where
  more : ∀ c, c.index < k → first.kindAt c ≠ .eof
  same : ∀ c, c.index < k → whole.kindAt c = first.kindAt c
  beyond : ∀ c, k ≤ c.index → first.kindAt c = .eof
  separated : whole.kindAt ⟨k⟩ = .newline
  shifted : ∀ c, whole.kindAt (c.later (k + 1)) = last.kindAt c
  longer : last.size ≤ whole.size

theorem start_later (k : Nat) : Cursor.start.later k = ⟨k⟩ := congrArg Cursor.mk (Nat.zero_add k)

namespace Parser

variable {kinds : Kinds} {answers : Answers} {c d m : Cursor} {place : Extent} {trees : List Tree}

section Blocks

variable (moves : ∀ rule c, Moved kinds c (answers rule c))
  (succeeds : (block kinds.size).eval kinds answers c = .ok ⟨.block place trees, d⟩)

include moves succeeds

theorem place_last_of_block : place.last = d := by
  obtain ⟨_, _, _, _, _, _, _, _, rfl, _⟩ := found_of_block moves succeeds
  rfl

theorem statements_of_block : ∀ tree ∈ trees, ∃ m e, answers .statement m = .ok ⟨tree, e⟩ := by
  obtain ⟨_, m, first, e, rest, _, answered, series, _, rfl⟩ := found_of_block moves succeeds
  refine List.forall_mem_cons.2 ⟨⟨m, e, answered⟩, series.forall_mem fun c tree d found => ?_⟩
  obtain ⟨_, s, _, answered⟩ := nextStatement_eq_some.1 found
  exact ⟨s, d, answered⟩

end Blocks

/-- With a separator in front, the statements of a block are further ones. -/
theorem series_of_block (moves : ∀ rule c, Moved kinds c (answers rule c))
    (separator : kinds.kindAt c = .newline)
    (succeeds : (block kinds.size).eval kinds answers c.next = .ok ⟨.block place trees, d⟩) :
    Series (nextStatement kinds answers) c trees d := by
  obtain ⟨n, m, first, e, rest, skips, answered, series, _, rfl⟩ := found_of_block moves succeeds
  have more : Skips kinds c (n + 1) m := ⟨.cons separator (by simp) skips.1, skips.2⟩
  exact ⟨e, nextStatement_eq_some.2 ⟨n, m, more, answered⟩, series⟩

/-- More separators in front of a separator change nothing. -/
theorem nextStatement_of_separators {n : Nat}
    (reads : kinds.Reads c (List.replicate n .newline) m) (separator : kinds.kindAt m = .newline) :
    nextStatement kinds answers c = nextStatement kinds answers m := by
  obtain ⟨_ | further, d, skips⟩ := exists_skips kinds m
  · obtain ⟨rfl, other⟩ := skips
    exact absurd separator other
  · have all : Skips kinds c (n + further + 1) d := by
      refine ⟨?_, skips.2⟩
      rw [Nat.add_assoc, ← List.replicate_append_replicate]
      exact reads.append skips.1
    rw [nextStatement_of_some all, nextStatement_of_some skips]

theorem series_of_separators {n : Nat} (reads : kinds.Reads c (List.replicate n .newline) m)
    (separator : kinds.kindAt m = .newline)
    (series : Series (nextStatement kinds answers) m trees d) :
    Series (nextStatement kinds answers) c trees d := by
  have same := @nextStatement_of_separators kinds answers c m n reads separator
  cases trees <;> simpa only [Series, same] using series

end Parser

namespace Joins

variable {first last whole : Kinds} {k : Nat} {limit : Limit} {c d : Cursor}
  (j : Joins first last whole k)

include j

theorem index_lt (more : first.kindAt c ≠ .eof) : c.index < k :=
  Nat.lt_of_not_le fun behind => more (j.beyond c behind)

theorem index_le (passes : first.Passes c d) : d.index ≤ k :=
  passes.reaches.index_le_of_eof (Nat.le_of_lt (j.index_lt passes.kindAt_ne))
    (j.beyond ⟨k⟩ (Nat.le_refl k))

theorem alike (before : c.index ≤ k) : Alike (first.kindAt c) (whole.kindAt c) := by
  rcases Nat.eq_or_lt_of_le before with ends | inside
  · obtain rfl : c = ⟨k⟩ := congrArg Cursor.mk ends
    exact .inr ⟨j.beyond _ (Nat.le_refl k), j.separated⟩
  · exact .inl (j.same c inside)

/-- What succeeds on the first row does so on the whole one, as long as no expression can start
    behind a bare return. -/
theorem carries (limit : Limit) (depth : Nat) :
    Carries first whole (fun c => startsExpression (whole.kindAt c) = false)
      (Rule.answer first limit depth) (Rule.answer whole limit depth) where
  same _ more := j.same _ (j.index_lt more)
  alike _ _ passes := j.alike (j.index_le passes)
  moves := Rule.answer_moves limit depth
  moved := Rule.answer_moves limit depth
  spares _ := Rule.expression_fails
  refuses _ := Rule.statement_fails
  transfers _ _ _ succeeds := Rule.answer_transfers (fun _ more => j.same _ (j.index_lt more))
    (fun _ _ passes => j.alike (j.index_le passes)) (fun _ allowed => allowed)
    (fun _ _ => Rule.expression_fails) succeeds

variable {place : Extent} {trees back : List Tree} {tree : Tree}

/-- A program takes up all tokens of its row. -/
theorem block_of_accepted (accepted : (parseKinds first limit .start).1 = .ok tree) :
    (block first.size).eval first (Rule.answer first limit 0) .start = .ok ⟨tree, ⟨k⟩⟩ := by
  obtain ⟨d, answered, finished⟩ := parseKinds_eq_ok.1 accepted
  have moved : Moved first .start (Rule.answer first limit 0 .block .start) :=
    Rule.answer_moves limit 0 .block .start
  rw [answered] at moved
  have before : d.index ≤ k := j.index_le moved
  have behind : k ≤ d.index := Nat.le_of_not_lt fun inside => j.more d inside finished
  obtain rfl : d = ⟨k⟩ := congrArg Cursor.mk (Nat.le_antisymm before behind)
  rwa [Rule.answer_of_free rfl] at answered

/-- Its statements lie in front of the end of the row. -/
theorem within_of_accepted
    (accepted : (parseKinds first limit .start).1 = .ok (.block place trees)) :
    ∀ tree ∈ trees, ∀ inner ∈ Node.nodes tree,
      ∀ extent ∈ Node.place inner :: (Node.names inner).map Ident.place,
        extent.first.index ≤ extent.last.index ∧ extent.last.index < k := by
  intro tree among inner below extent lies
  have moves : ∀ rule c, Moved first c (Rule.answer first limit 0 rule c) :=
    Rule.answer_moves limit 0
  obtain ⟨m, e, answered⟩ :=
    statements_of_block moves (j.block_of_accepted accepted) tree among
  have moved := moves .statement m
  rw [answered] at moved
  obtain ⟨_, inOrder, before⟩ := Rule.answer_within answered inner below extent lies
  exact ⟨inOrder, Nat.lt_of_lt_of_le before (j.index_le moved)⟩

theorem first_of_accepted
    (accepted : (parseKinds first limit .start).1 = .ok (.block place trees)) :
    place.first.index < k := by
  obtain ⟨d, answered, _⟩ := parseKinds_eq_ok.1 accepted
  exact j.index_lt (Rule.answer_laid answered).self.starts

variable (accepted : (parseKinds first limit .start).1 = .ok (.block place trees))
  (behind : ∀ mark ∈ (Node.block place trees).bareReturns,
    startsExpression (first.kindAt mark.first.next) = false)

include accepted behind

/-- The block goes on behind the separator with whatever can be read there. -/
theorem block_joins {e : Cursor}
    (goesOn : Series (nextStatement whole (Rule.answer whole limit 0)) ⟨k⟩ back e) :
    Rule.answer whole limit 0 .block .start =
      .ok ⟨.block ⟨place.first, e⟩ (trees ++ back), e⟩ := by
  rw [Rule.answer_of_free rfl]
  refine block_prolong (j.carries limit 0) (j.block_of_accepted accepted) (fun mark bare => ?_)
    fun c n skips => ?_
  · -- The return itself is a token of the first row, so what stands behind it may be the separator.
    have inside : mark.first.index < k :=
      j.index_lt (by simp [parseKinds_bareReturn accepted mark bare])
    exact ((j.alike inside).congr startsExpression rfl).trans (behind mark bare)
  · -- Separators at the end of the first program run on into the one between both.
    exact series_of_separators ((j.carries limit 0).reads skips.1) j.separated goesOn

theorem parseKinds_joins {extent : Extent} {others : List Tree}
    (acceptedToo : (parseKinds last limit .start).1 = .ok (.block extent others)) :
    (parseKinds whole limit .start).1 =
      .ok (.block ⟨place.first, extent.last.later (k + 1)⟩
        (trees ++ others.map (Tree.later (k + 1)))) := by
  obtain ⟨d, answered, finished⟩ := parseKinds_eq_ok.1 acceptedToo
  have ends : extent.last = d := by
    rw [Rule.answer_of_free rfl] at answered
    exact place_last_of_block (Rule.answer_moves limit 0) answered
  subst ends
  have later : Rule.answer whole limit 0 .block ⟨k + 1⟩ =
      .ok ⟨.block (extent.later (k + 1)) (others.map (Tree.later (k + 1))),
        extent.last.later (k + 1)⟩ := by
    rw [← start_later, Rule.answer_later j.shifted j.longer, answered]
    simp only [Outcome.later, Rule.later, later_block]
  rw [Rule.answer_of_free rfl] at later
  have goesOn := series_of_block (Rule.answer_moves limit 0) j.separated later
  refine parseKinds_eq_ok.2 ⟨_, j.block_joins accepted behind goesOn, ?_⟩
  rw [j.shifted, finished]

/-- Where nothing can be read of the second program the first one ends too early. -/
theorem parseKinds_joins_error (plain : last.kindAt .start ≠ .newline)
    (more : last.kindAt .start ≠ .eof)
    (fails : ∃ error, Rule.answer last limit 0 .statement .start = .error error) :
    (parseKinds whole limit .start).1 = .error ⟨.trailingToken, ⟨k + 1⟩⟩ := by
  obtain ⟨error, answered⟩ := fails
  have later : Rule.answer whole limit 0 .statement ⟨k + 1⟩ =
      .error (SyntaxError.later (k + 1) error) := by
    rw [← start_later, Rule.answer_later j.shifted j.longer, answered]
    rfl
  have here : whole.kindAt ⟨k + 1⟩ = last.kindAt .start := start_later (k + 1) ▸ j.shifted .start
  have skips : Skips whole ⟨k⟩ 1 ⟨k + 1⟩ := ⟨.single j.separated (by simp), here ▸ plain⟩
  have goesOn : Series (nextStatement whole (Rule.answer whole limit 0)) ⟨k⟩ [] ⟨k + 1⟩ :=
    nextStatement_eq_none.2 ⟨1, skips, .inr ⟨_, later⟩⟩
  have read := j.block_joins accepted behind goesOn
  rw [parseKinds_outcome]
  exact congrArg _ (program_of_trailing read (here ▸ more))

end Joins

/-- Programs are blocks. -/
theorem exists_block {kinds : Kinds} {limit : Limit} {tree : Tree}
    (accepted : (parseKinds kinds limit .start).1 = .ok tree) :
    ∃ place trees, tree = .block place trees := by
  obtain ⟨d, answered, _⟩ := parseKinds_eq_ok.1 accepted
  rw [Rule.answer_of_free rfl] at answered
  obtain ⟨_, _, first, _, rest, _, _, _, same⟩ :=
    (block_eq_ok (Rule.answer_moves limit 0)).1 answered
  exact ⟨_, _, same⟩

namespace TokenStream

variable {front back : List Token} {separator stop final : Token} {c : Cursor}
  (stops : stop.kind = .eof) (ends : final.kind = .eof)

include ends

theorem size_kinds_ofList : (ofList (front ++ [final])).kinds.size = front.length + 1 := by
  simp [kinds, ofList, ends]

theorem tokenAt_later : (ofList (front ++ separator :: back ++ [final])).tokenAt
    (c.later (front.length + 1)) = (ofList (back ++ [final])).tokenAt c := by
  rw [tokenAt_ofList ends, tokenAt_ofList ends]
  simp only [Cursor.later, List.getD_eq_getElem?_getD]
  rw [List.getElem?_append_right (by omega), show c.index + (front.length + 1) - front.length =
    c.index + 1 by omega, List.getElem?_cons_succ]

theorem spanOf_later (extent : Extent) : (ofList (front ++ separator :: back ++ [final])).spanOf
    (extent.later (front.length + 1)) = (ofList (back ++ [final])).spanOf extent := by
  simp only [spanOf, Extent.later, tokenAt_later ends]

theorem map_spanOf_later (tree : Tree) :
    (tree.later (front.length + 1)).map (ofList (front ++ separator :: back ++ [final])).spanOf =
      tree.map (ofList (back ++ [final])).spanOf := by
  rw [Tree.later, Node.map_map]
  exact congrArg (Node.map · tree) (funext (spanOf_later ends))

include stops

theorem tokenAt_front (inside : c.index < front.length) :
    (ofList (front ++ separator :: back ++ [final])).tokenAt c =
      (ofList (front ++ [stop])).tokenAt c := by
  rw [tokenAt_ofList ends, tokenAt_ofList stops]
  simp [List.getD_eq_getElem?_getD, List.getElem?_append_left inside, inside]

theorem joins_ofList (plain : ∀ token ∈ front, token.kind ≠ .eof)
    (separates : separator.kind = .newline) :
    Joins (ofList (front ++ [stop])).kinds (ofList (back ++ [final])).kinds
      (ofList (front ++ separator :: back ++ [final])).kinds front.length where
  more c inside := by
    rw [kindAt_kinds, tokenAt_ofList stops]
    simpa [List.getD_eq_getElem?_getD, inside] using plain _ (List.getElem_mem inside)
  same c inside := by rw [kindAt_kinds, kindAt_kinds, tokenAt_front stops ends inside]
  beyond c behind := by
    rw [kindAt_kinds, tokenAt_ofList stops]
    simp [List.getD_eq_getElem?_getD, List.getElem?_eq_none behind, stops]
  separated := by
    rw [kindAt_kinds, tokenAt_ofList ends]
    simp [List.getD_eq_getElem?_getD, separates]
  shifted c := by rw [kindAt_kinds, kindAt_kinds, tokenAt_later ends]
  longer := by
    rw [size_kinds_ofList ends, size_kinds_ofList ends, List.length_append, List.length_cons]
    omega

/-- What was read in front of the end of the first row has the same spans in the whole one. -/
theorem map_spanOf_front {tree : Tree}
    (inside : ∀ inner ∈ Node.nodes tree,
      ∀ extent ∈ Node.place inner :: (Node.names inner).map Ident.place,
        extent.first.index ≤ extent.last.index ∧ extent.last.index < front.length) :
    tree.map (ofList (front ++ separator :: back ++ [final])).spanOf =
      tree.map (ofList (front ++ [stop])).spanOf := by
  refine Node.map_congr fun inner among extent lies => ?_
  obtain ⟨inOrder, before⟩ := inside inner among extent lies
  simp only [spanOf, tokenAt_front stops ends before,
    tokenAt_front stops ends (Nat.lt_of_le_of_lt inOrder before)]

/-- The statements of two programs in the whole row have the spans they have by themselves. -/
theorem map_spanOf_joined {place extent : Extent} {trees others : List Tree}
    (starts : place.first.index < front.length)
    (inside : ∀ tree ∈ trees, ∀ inner ∈ Node.nodes tree,
      ∀ extent ∈ Node.place inner :: (Node.names inner).map Ident.place,
        extent.first.index ≤ extent.last.index ∧ extent.last.index < front.length) :
    Node.map (ofList (front ++ separator :: back ++ [final])).spanOf
        (.block ⟨place.first, extent.last.later (front.length + 1)⟩
          (trees ++ others.map (Tree.later (front.length + 1)))) =
      .block (((ofList (front ++ [stop])).spanOf place).join
          ((ofList (back ++ [final])).spanOf extent))
        (trees.map (Node.map (ofList (front ++ [stop])).spanOf) ++
          others.map (Node.map (ofList (back ++ [final])).spanOf)) := by
  have kept : trees.map (Node.map (ofList (front ++ separator :: back ++ [final])).spanOf) =
      trees.map (Node.map (ofList (front ++ [stop])).spanOf) :=
    List.map_congr_left fun tree among => map_spanOf_front stops ends (inside tree among)
  have moved : (others.map (Tree.later (front.length + 1))).map
      (Node.map (ofList (front ++ separator :: back ++ [final])).spanOf) =
        others.map (Node.map (ofList (back ++ [final])).spanOf) := by
    rw [List.map_map]
    exact List.map_congr_left fun tree _ => map_spanOf_later ends tree
  rw [Node.map_block, List.map_append, kept, moved]
  simp only [spanOf, tokenAt_later ends, tokenAt_front stops ends starts, Span.join]

end TokenStream

end Grammar

open Grammar

/-- A program that is accepted, with nothing behind its bare returns that an expression can start
    with, is taken up as it is where a separator and further tokens follow in place of the end. If
    these are accepted by themselves, the whole is accepted with the statements of both; if they
    begin with something that is no statement, the first of them cannot stand there. -/
theorem parse_append (front back : List Token) (separator stop final : Token) (first : Node Span)
    (plain : ∀ token ∈ front ++ back, token.kind ≠ .eof) (separates : separator.kind = .newline)
    (stops : stop.kind = .eof) (ends : final.kind = .eof)
    (accepted : (parse (front ++ [stop])).outcome = .ok first)
    (behind : ∀ tree : Tree,
      (parseKinds (TokenStream.ofList (front ++ [stop])).kinds standardLimit .start).1 = .ok tree →
      ∀ mark ∈ tree.bareReturns, startsExpression
        ((TokenStream.ofList (front ++ [stop])).tokenAt mark.first.next).kind = false) :
    let whole := front ++ separator :: back ++ [final]
    let stream := TokenStream.ofList (back ++ [final])
    ∃ place statements, first = .block place statements ∧
      (∀ last, (parse (back ++ [final])).outcome = .ok last →
        ∃ placeToo others, last = .block placeToo others ∧
          (parse whole).outcome = .ok (.block (place.join placeToo) (statements ++ others))) ∧
      ∀ token rest error, back = token :: rest → token.kind ≠ .newline →
        (Rule.run stream.kinds standardLimit (Rule.enoughCalls stream.kinds) .statement .start
          .start).1 = .error error →
        (parse whole).outcome =
          .error ⟨.invalidSyntax, "Token cannot appear after previous tokens", token.span⟩ := by
  intro whole stream
  have plainFront : ∀ token ∈ front, token.kind ≠ .eof :=
    fun token among => plain token (List.mem_append_left _ among)
  have j : Joins _ stream.kinds (TokenStream.ofList whole).kinds front.length :=
    TokenStream.joins_ofList stops ends plainFront separates
  obtain ⟨tree, parsed, rfl⟩ := TokenStream.parse_eq_ok.1 accepted
  obtain ⟨place, trees, rfl⟩ := exists_block parsed
  have spared (mark) (bare : mark ∈ Node.bareReturns (.block place trees)) :=
    (congrArg startsExpression (TokenStream.kindAt_kinds _ _)).trans (behind _ parsed mark bare)
  refine ⟨_, _, Node.map_block _ place trees, fun last acceptedToo => ?_,
    fun token rest error begins other fails => ?_⟩
  · obtain ⟨tree, parsedToo, rfl⟩ := TokenStream.parse_eq_ok.1 acceptedToo
    obtain ⟨extent, others, rfl⟩ := exists_block parsedToo
    refine ⟨_, _, Node.map_block _ extent others, TokenStream.parse_eq_ok.2
      ⟨_, j.parseKinds_joins parsed spared parsedToo, ?_⟩⟩
    exact (TokenStream.map_spanOf_joined stops ends (j.first_of_accepted parsed)
      (j.within_of_accepted parsed)).symm
  · have here : stream.tokenAt .start = token := by
      simp only [stream, begins, TokenStream.tokenAt_ofList ends]
      rfl
    have there : (TokenStream.ofList whole).tokenAt ⟨front.length + 1⟩ = token := by
      rw [← start_later, TokenStream.tokenAt_later ends]
      exact here
    have kind : stream.kinds.kindAt .start = token.kind := by rw [TokenStream.kindAt_kinds, here]
    have more : token.kind ≠ .eof := plain token (by simp [begins])
    rw [Rule.run_eq_answer (Rule.weight_lt_enoughCalls _ _ _)] at fails
    refine TokenStream.parse_eq_error.2 ⟨_, j.parseKinds_joins_error parsed spared (kind ▸ other)
      (kind ▸ more) ⟨error, fails⟩, ?_⟩
    rw [TokenStream.diagnose, there]
    rfl

/-- `IF 1 THEN RETURN` goes on with `2`, but not with `THEN`. -/
theorem parse_append_bare_return :
    let place (i : Nat) : Span := .empty ⟨i, 0, i, ⟨"", ""⟩⟩
    let front : List Token := [⟨.keyword .if, place 0⟩, ⟨.int 1, place 1⟩,
      ⟨.keyword .then, place 2⟩, ⟨.keyword .return, place 3⟩]
    let separator : Token := ⟨.newline, place 4⟩
    let stop : Token := ⟨.eof, place 4⟩
    let final : Token := ⟨.eof, place 6⟩
    let value : Token := ⟨.int 2, place 5⟩
    let word : Token := ⟨.keyword .then, place 5⟩
    let choice : Node Span := .ifElse ((place 0).join (place 3))
      [⟨.int (place 1) 1, ⟨.returnWith (place 3) none, false⟩⟩] none
    let stream := TokenStream.ofList (front ++ [stop])
    (parse (front ++ [stop])).outcome = .ok (.block ((place 0).join stop.span) [choice]) ∧
      (∀ tree : Tree, (parseKinds stream.kinds standardLimit .start).1 = .ok tree →
        ∀ mark ∈ tree.bareReturns,
          startsExpression (stream.tokenAt mark.first.next).kind = false) ∧
      (parse (front ++ separator :: [value] ++ [final])).outcome =
        .ok (.block ((place 0).join final.span) [choice, .int (place 5) 2]) ∧
      (parse (front ++ separator :: [word] ++ [final])).outcome =
        .error ⟨.invalidSyntax, "Token cannot appear after previous tokens", place 5⟩ := by
  intro place front separator stop final value word choice stream
  have accepted : (parse (front ++ [stop])).outcome =
      .ok (.block ((place 0).join stop.span) [choice]) :=
    (parse_outcome _).trans (by cbv)
  have behind (tree : Tree) (parsed : (parseKinds stream.kinds standardLimit .start).1 = .ok tree) :
      ∀ mark ∈ tree.bareReturns,
        startsExpression (stream.tokenAt mark.first.next).kind = false := by
    have exact : (parseKinds stream.kinds standardLimit .start).1 =
      .ok (.block ⟨⟨0⟩, ⟨4⟩⟩ [.ifElse ⟨⟨0⟩, ⟨3⟩⟩
        [⟨.int (.token ⟨1⟩) 1, ⟨.returnWith (.token ⟨3⟩) none, false⟩⟩] none]) := by cbv
    cases exact.symm.trans parsed
    decide
  have second : (parse ([value] ++ [final])).outcome =
      .ok (.block ((place 5).join final.span) [.int (place 5) 2]) :=
    (parse_outcome _).trans (by cbv)
  refine ⟨accepted, behind, ?_, ?_⟩
  · obtain ⟨_, _, ⟨⟩, both, _⟩ := parse_append front [value] separator stop final _ (by decide) rfl
      rfl rfl accepted behind
    obtain ⟨_, _, ⟨⟩, whole⟩ := both _ second
    exact whole
  · obtain ⟨_, _, _, _, neither⟩ := parse_append front [word] separator stop final _ (by decide) rfl
      rfl rfl accepted behind
    have same : (TokenStream.ofList ([word] ++ [final])).kinds = #[.keyword .then, .eof] := by cbv
    refine neither word [] ⟨.expected Expected.statement, .start⟩ rfl (by decide) ?_
    rw [same]
    cbv

end Sharp
