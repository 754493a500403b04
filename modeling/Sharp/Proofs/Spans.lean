import Sharp.Proofs.Grammar.Acceptance
import Sharp.Proofs.Grammar.Layout
import Sharp.Proofs.Lexeme.Standing

/-!
Spans of whole programs. A node's span goes from the start of its first token to the end of its
last one, so what holds of tokens carries over: positions are positions of the text, and spans nest
and follow one another as the nodes do.
-/
namespace Sharp

open Grammar

variable {source : Source} {front : List Token} {final : Token}

/-- Places inside a diagnostic beside its span: where the calls on its traceback were entered. -/
def Diagnostic.entries (d : Diagnostic) : List Position :=
  match d.cause with
  | .runtime context => context.frames.filterMap Frame.entry
  | _ => []

namespace Lined

variable {c d : Cursor}

theorem tokenAt_eq (lined : Lined source front final) (c : Cursor) :
    (TokenStream.ofList (front ++ [final])).tokenAt c = front.getD c.index final :=
  TokenStream.tokenAt_ofList lined.finishes c

theorem tokenAt_mem (lined : Lined source front final) (c : Cursor) :
    (TokenStream.ofList (front ++ [final])).tokenAt c ∈ front ++ [final] := by
  rw [lined.tokenAt_eq, List.getD_eq_getElem?_getD]
  by_cases inside : c.index < front.length
  · simp [inside]
  · simp [List.getElem?_eq_none (Nat.le_of_not_lt inside)]

theorem start_le_stop (lined : Lined source front final) (c : Cursor) :
    ((TokenStream.ofList (front ++ [final])).tokenAt c).span.start.index ≤
      ((TokenStream.ofList (front ++ [final])).tokenAt c).span.stop.index := by
  rcases List.mem_append.1 (lined.tokenAt_mem c) with inside | last
  · exact Nat.le_of_lt (lined.nonempty _ inside)
  · rw [List.mem_singleton.1 last]
    exact Nat.le_of_eq lined.empty

/-- A token ends before the next one starts; behind the last one stands the final one for ever. -/
theorem stop_le_start (lined : Lined source front final) (later : c.index < d.index) :
    ((TokenStream.ofList (front ++ [final])).tokenAt c).span.stop.index ≤
      ((TokenStream.ofList (front ++ [final])).tokenAt d).span.start.index := by
  obtain ⟨ordered, _, before⟩ := List.pairwise_append.1 lined.ordered
  rw [lined.tokenAt_eq, lined.tokenAt_eq, List.getD_eq_getElem?_getD, List.getD_eq_getElem?_getD]
  by_cases inside : d.index < front.length
  · have first : c.index < front.length := Nat.lt_trans later inside
    simpa [inside, first] using List.pairwise_iff_getElem.1 ordered _ _ first inside later
  · rw [List.getElem?_eq_none (Nat.le_of_not_lt inside)]
    by_cases first : c.index < front.length
    · simpa [first] using before _ (List.getElem_mem first)
    · rw [List.getElem?_eq_none (Nat.le_of_not_lt first)]
      exact Nat.le_of_eq lined.empty.symm

theorem start_le_start (lined : Lined source front final) (inOrder : c.index ≤ d.index) :
    ((TokenStream.ofList (front ++ [final])).tokenAt c).span.start.index ≤
      ((TokenStream.ofList (front ++ [final])).tokenAt d).span.start.index := by
  rcases Nat.eq_or_lt_of_le inOrder with same | later
  · obtain rfl : c = d := congrArg Cursor.mk same
    exact Nat.le_refl _
  · exact Nat.le_trans (lined.start_le_stop c) (lined.stop_le_start later)

theorem stop_le_stop (lined : Lined source front final) (inOrder : c.index ≤ d.index) :
    ((TokenStream.ofList (front ++ [final])).tokenAt c).span.stop.index ≤
      ((TokenStream.ofList (front ++ [final])).tokenAt d).span.stop.index := by
  rcases Nat.eq_or_lt_of_le inOrder with same | later
  · obtain rfl : c = d := congrArg Cursor.mk same
    exact Nat.le_refl _
  · exact Nat.le_trans (lined.stop_le_start later) (lined.start_le_stop d)

end Lined

section Nodes

variable {tokens : List Token}

/-- A token of the text, and no separator, ends where the span does. -/
def Span.EndsIn (tokens : List Token) (span : Span) : Prop :=
  ∃ t ∈ tokens, t.kind ≠ .newline ∧ span.stop = t.span.stop

theorem Lined.spanOf_stands (lined : Lined source front final)
    (stands : ∀ t ∈ front ++ [final], t.Stands source) {extent : Extent}
    (other : (TokenStream.ofList (front ++ [final])).kinds.kindAt extent.last ≠ .newline) :
    ((TokenStream.ofList (front ++ [final])).spanOf extent).Stands source ∧
      ((TokenStream.ofList (front ++ [final])).spanOf extent).EndsIn (front ++ [final]) := by
  rw [TokenStream.kindAt_kinds] at other
  have first := stands _ (lined.tokenAt_mem extent.first)
  have last := stands _ (lined.tokenAt_mem extent.last)
  rw [Token.Stands, if_neg other] at last
  exact ⟨⟨first.1, last.2⟩, _, lined.tokenAt_mem extent.last, other, rfl⟩

/-- An accepted text has tokens, and its nodes stand where those of a tree of the tokens lie. -/
theorem exists_parsed {root : Node Span} (read : tokenize source = .ok tokens)
    (accepted : (run source).outcome = .ok root) :
    ∃ front final, ∃ tree : Tree, tokens = front ++ [final] ∧ Lined source front final ∧
      root = tree.map (TokenStream.ofList tokens).spanOf ∧
      (parseKinds (TokenStream.ofList tokens).kinds standardLimit .start).1 = .ok tree := by
  simp only [run, read] at accepted
  obtain ⟨front, final, rfl, lined⟩ := exists_lined read
  obtain ⟨tree, parsed, rfl⟩ := TokenStream.parse_eq_ok.1 accepted
  exact ⟨front, final, tree, rfl, lined, rfl, parsed⟩

/-- An accepted text has tokens and a tree that lies on them. -/
theorem run_eq_ok {root : Node Span} (read : tokenize source = .ok tokens)
    (accepted : (run source).outcome = .ok root) :
    ∃ front final, ∃ tree : Tree, tokens = front ++ [final] ∧ Lined source front final ∧
      root = tree.map (TokenStream.ofList tokens).spanOf ∧
      ∀ node ∈ tree.nodes, Tidy (TokenStream.ofList tokens).kinds node := by
  obtain ⟨front, final, tree, same, lined, carried, parsed⟩ := exists_parsed read accepted
  exact ⟨front, final, tree, same, lined, carried, parseKinds_tidy parsed⟩

theorem run_nodes_stand {root : Node Span} (read : tokenize source = .ok tokens)
    (accepted : (run source).outcome = .ok root) :
    ∀ node ∈ root.nodes, ∀ span ∈ node.place :: node.names.map Ident.place,
      span.Stands source ∧ span.EndsIn tokens := by
  obtain ⟨front, final, tree, rfl, lined, rfl, tidy⟩ := run_eq_ok read accepted
  have stands := tokenize_stands read
  rw [Node.nodes_map, List.forall_mem_map]
  intro node among
  rw [Node.place_map, Node.names_map, List.map_map, List.forall_mem_cons, List.forall_mem_map]
  refine ⟨lined.spanOf_stands stands (tidy node among).ends, fun name isName => ?_⟩
  have named := (tidy node among).named name isName
  exact lined.spanOf_stands stands (named ▸ TokenKind.noConfusion)

theorem run_error_copied {d : Diagnostic} (read : tokenize source = .ok tokens)
    (refused : (run source).outcome = .error d) :
    d.entries = [] ∧ ∃ t ∈ tokens, d.span = t.span := by
  simp only [run, read] at refused
  obtain ⟨front, final, rfl, lined⟩ := exists_lined read
  obtain ⟨error, _, rfl⟩ := TokenStream.parse_eq_error.1 refused
  exact ⟨rfl, _, lined.tokenAt_mem error.cursor, rfl⟩

theorem tokenize_error_entries {d : Diagnostic} (fails : tokenize source = .error d) :
    d.entries = [] := by
  obtain ⟨fault, _, rfl⟩ := exists_fault fails
  cases fault <;> rfl

end Nodes

/-- All positions that are reported are positions of the text, but for the ends of separators, and
    no node ends in one. -/
theorem run_positions_stand (source : Source) :
    match tokenize source with
    | .error d => (run source).outcome = .error d ∧ d.span.Stands source ∧ d.entries = []
    | .ok tokens => (∀ t ∈ tokens, t.Stands source) ∧
      match (run source).outcome with
      | .error d => d.entries = [] ∧ ∃ t ∈ tokens, d.span = t.span
      | .ok root => ∀ node ∈ root.nodes, ∀ span ∈ node.place :: node.names.map Ident.place,
          span.Stands source ∧ span.EndsIn tokens := by
  split
  · rename_i d fails
    refine ⟨?_, tokenize_error_stands fails, tokenize_error_entries fails⟩
    simp only [run, fails]
  · rename_i tokens read
    refine ⟨tokenize_stands read, ?_⟩
    split
    · rename_i d refused
      exact run_error_copied read refused
    · rename_i root accepted
      exact run_nodes_stand read accepted

/-- A node takes up room, its names and children lie inside it, and each of them ends before the
    next one starts. -/
theorem run_spans_nest {root : Node Span} (accepted : (run source).outcome = .ok root) :
    ∀ node ∈ root.nodes, node.place.start.index < node.place.stop.index ∧
      (∀ span ∈ node.parts, node.place.start.index ≤ span.start.index ∧
        span.stop.index ≤ node.place.stop.index) ∧
      node.parts.Pairwise fun span next => span.stop.index ≤ next.start.index := by
  obtain ⟨tokens, read⟩ : ∃ tokens, tokenize source = .ok tokens := by
    cases read : tokenize source with
    | error d => simp [run, read] at accepted
    | ok tokens => exact ⟨tokens, rfl⟩
  obtain ⟨front, final, tree, rfl, lined, rfl, tidy⟩ := run_eq_ok read accepted
  rw [Node.nodes_map, List.forall_mem_map]
  intro node among
  obtain ⟨starts, _, inOrder, parts, _⟩ := tidy node among
  rw [Node.place_map, Node.parts_map, List.forall_mem_map, List.pairwise_map]
  refine ⟨?_, fun extent isPart => ?_, parts.pairwise.imp lined.stop_le_start⟩
  · rw [TokenStream.kindAt_kinds] at starts
    have inside : (TokenStream.ofList (front ++ [final])).tokenAt node.place.first ∈ front := by
      refine (List.mem_append.1 (lined.tokenAt_mem _)).resolve_right fun last => ?_
      rw [List.mem_singleton.1 last] at starts
      exact starts lined.finishes
    exact Nat.lt_of_lt_of_le (lined.nonempty _ inside) (lined.stop_le_stop inOrder)
  · obtain ⟨first, _, last⟩ := parts.within extent isPart
    exact ⟨lined.start_le_start first, lined.stop_le_stop (Nat.le_of_lt_succ last)⟩

/-- Brackets lie outside of what they hold, and the blocks end with the word behind them. -/
theorem run_spans_nest_loop :
    let source : Source := ⟨"shell", "WHILE (x) THEN\n y\nEND; -f(2)"⟩
    let places (root : Node Span) : List (Nat × Nat) :=
      root.nodes.map fun node => (node.place.start.index, node.place.stop.index)
    ∃ root, (run source).outcome = .ok root ∧
      places root = [(0, 28), (0, 21), (7, 8), (16, 21), (16, 17), (23, 28), (24, 28), (24, 25),
        (26, 27)] ∧
      ∀ node ∈ root.nodes, node.place.start.index < node.place.stop.index ∧
        (∀ span ∈ node.parts, node.place.start.index ≤ span.start.index ∧
          span.stop.index ≤ node.place.stop.index) ∧
        node.parts.Pairwise fun span next => span.stop.index ≤ next.start.index := by
  intro source places
  have shape : (run source).outcome.map places = .ok [(0, 28), (0, 21), (7, 8), (16, 21), (16, 17),
      (23, 28), (24, 28), (24, 25), (26, 27)] := by
    decide +kernel
  cases outcome : (run source).outcome with
  | error d =>
    rw [outcome] at shape
    cases shape
  | ok root =>
    rw [outcome] at shape
    exact ⟨root, rfl, Except.ok.inj shape, run_spans_nest outcome⟩

end Sharp
