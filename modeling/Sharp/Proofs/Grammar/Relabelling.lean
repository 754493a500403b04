import Sharp.Proofs.Grammar.Acceptance

/-!
Rows at other places. Rules see whole tokens, but what they do is decided by the kinds of these alone,
and every span they build is put together from spans of tokens. So if every place in a row is moved,
the places in what a rule yields move along and nothing else changes, and two rows of the same kinds
have trees of one shape, or the same thing to say about the same token. A row that lacks a final
token gets one where its last token ends, which moves with that token.
-/
namespace Sharp

open Grammar

def Span.relabel (f : Position → Position) (span : Span) : Span := ⟨f span.start, f span.stop⟩

def Token.relabel (f : Position → Position) (t : Token) : Token := ⟨t.kind, t.span.relabel f⟩

/-- The span is all there is to move: a syntax error has no calls on a traceback. -/
def Diagnostic.relabel (f : Position → Position) (d : Diagnostic) : Diagnostic :=
  { d with span := d.span.relabel f }

namespace Grammar

/-- What a rule yields at other places. -/
def Rule.relabel (f : Position → Position) : (rule : Rule) → rule.Result → rule.Result
  | .body, inner | .closedBody, inner => inner.map (Node.map (Span.relabel f))
  | .block, tree | .statement, tree | .expression, tree | .comparison, tree | .sum, tree
  | .product, tree | .signed, tree | .power, tree | .application, tree | .atom, tree
  | .listing, tree | .conditional, tree | .forLoop, tree | .whileLoop, tree | .function, tree =>
    tree.map (Span.relabel f)

/-- How a rule ends at other places. -/
def Rule.relabelOutcome (f : Position → Position) (rule : Rule) :
    Except (Failure Diagnostic) (Parsed rule.Result) →
      Except (Failure Diagnostic) (Parsed rule.Result)
  | .ok parsed => .ok (parsed.map (rule.relabel f))
  | .error failure => .error ⟨failure.error.relabel f, failure.cursor⟩

theorem Rule.relabel_spanned (f : Position → Position) (g : Extent → Span) (rule : Rule)
    (value : rule.Value) :
    rule.relabel f (rule.spanned g value) = rule.spanned (Span.relabel f ∘ g) value := by
  cases rule with
  | body | closedBody =>
    exact congrArg (Body.mk · value.isBlock) (Node.map_map g value.node (Span.relabel f))
  | _ => exact Node.map_map g value (Span.relabel f)

namespace TokenStream

/-- The kinds of a row, with a final one behind them if there is none. -/
def closed (word : List TokenKind) : List TokenKind :=
  if word.getLast? = some .eof then word else word ++ [.eof]

theorem kinds_ofList (tokens : List Token) :
    (ofList tokens).kinds = (closed (tokens.map Token.kind)).toArray := by
  unfold ofList closed
  split
  · rename_i empty
    have none : tokens = [] := List.getLast?_eq_none_iff.1 empty
    simp [none, kinds]
  · rename_i last found
    obtain ⟨front, rfl⟩ := List.getLast?_eq_some_iff.1 found
    by_cases ends : last.kind = .eof
    · simp [ends, kinds]
    · simp [ends, kinds]

variable {f : Position → Position} {tokens : List Token}

theorem tokenAt_relabel (nonempty : tokens ≠ []) (c : Cursor) :
    (ofList (tokens.map (Token.relabel f))).tokenAt c = ((ofList tokens).tokenAt c).relabel f := by
  obtain ⟨front, last, rfl⟩ := List.eq_nil_or_concat' tokens |>.resolve_left nonempty
  have pick (row : List Token) (final : Token) :
      (row.map (Token.relabel f)).getD c.index (final.relabel f) =
        (row.getD c.index final).relabel f := by
    simp only [List.getD_eq_getElem?_getD, List.getElem?_map]
    cases row[c.index]? <;> rfl
  by_cases ends : last.kind = .eof
  · have also : (last.relabel f).kind = .eof := ends
    rw [List.map_append, List.map_singleton, tokenAt_ofList also, tokenAt_ofList ends]
    exact pick front last
  · have also : (last.relabel f).kind ≠ .eof := ends
    have added : finishAfter (some (last.relabel f)) = (finishAfter (some last)).relabel f := rfl
    have moved := pick (front ++ [last]) (finishAfter (some last))
    rw [← added] at moved
    simpa [tokenAt, ofList, ends, also] using moved

theorem spanOf_relabel (nonempty : tokens ≠ []) (extent : Extent) :
    (ofList (tokens.map (Token.relabel f))).spanOf extent =
      ((ofList tokens).spanOf extent).relabel f := by
  unfold spanOf
  rw [tokenAt_relabel nonempty, tokenAt_relabel nonempty]
  rfl

theorem diagnose_relabel (nonempty : tokens ≠ []) (error : SyntaxError) :
    (ofList (tokens.map (Token.relabel f))).diagnose error =
      ((ofList tokens).diagnose error).relabel f := by
  unfold diagnose
  rw [tokenAt_relabel nonempty]
  rfl

theorem kinds_relabel :
    (ofList (tokens.map (Token.relabel f))).kinds = (ofList tokens).kinds := by
  rw [kinds_ofList, kinds_ofList, List.map_map]
  rfl

theorem spanOf_comp_relabel (nonempty : tokens ≠ []) :
    (ofList (tokens.map (Token.relabel f))).spanOf = Span.relabel f ∘ (ofList tokens).spanOf :=
  funext fun extent => spanOf_relabel nonempty extent

/-- Whatever a rule does, it does at the other places too. -/
theorem read_relabel (nonempty : tokens ≠ []) (limit : Limit) (rule : Rule) (c : Cursor)
    (s : Session) :
    ((ofList (tokens.map (Token.relabel f))).read limit rule c).run.run s =
      let (outcome, after) := ((ofList tokens).read limit rule c).run.run s
      (rule.relabelOutcome f outcome, after) := by
  rw [read_eq, read_eq, kinds_relabel, spanOf_comp_relabel nonempty]
  rcases Rule.run (ofList tokens).kinds limit _ rule c s with ⟨error | parsed, after⟩
  · simp only [carry, diagnose_relabel nonempty]
    rfl
  · simp only [carry, Parsed.map, Rule.relabelOutcome, Rule.relabel_spanned]

end TokenStream

end Grammar

/-- Under any limit, moving the places of a row moves the spans of what each rule reads from it, in
    names and nodes alike, or that of its error, and what is noted on the way stays the same. So it
    is with a whole program, and all else depends on the kinds of the tokens alone. -/
theorem parse_relabelled (f : Position → Position) (limit : Limit) (tokens : List Token)
    (nonempty : tokens ≠ []) :
    let stream := TokenStream.ofList tokens
    let moved := TokenStream.ofList (tokens.map (Token.relabel f))
    let result := stream.parse limit .start
    (∀ rule c s, (moved.read limit rule c).run.run s =
      let (outcome, after) := (stream.read limit rule c).run.run s
      (rule.relabelOutcome f outcome, after)) ∧
    moved.parse limit .start =
      (match result.1 with
        | .ok tree => .ok (tree.map (Span.relabel f))
        | .error d => .error (d.relabel f), result.2) ∧
    ∀ others : List Token, others.map Token.kind = tokens.map Token.kind →
      let other := (TokenStream.ofList others).parse limit .start
      other.2 = result.2 ∧
        match result.1, other.1 with
        | .ok tree, .ok twin => twin.erase = tree.erase
        | .error d, .error e => e.cause = d.cause ∧ e.details = d.details ∧
          ∃ c : Cursor, d.span = (stream.tokenAt c).span ∧
            e.span = ((TokenStream.ofList others).tokenAt c).span
        | _, _ => False := by
  intro stream moved result
  refine ⟨TokenStream.read_relabel nonempty limit, ?_, ?_⟩
  · simp only [result, moved, TokenStream.parse_eq, TokenStream.kinds_relabel]
    cases (parseKinds stream.kinds limit .start).1 with
    | error error => simp only [TokenStream.diagnose_relabel nonempty, stream]
    | ok tree => simp only [TokenStream.spanOf_comp_relabel nonempty, Node.map_map, stream]
  · intro others alike other
    have same : (TokenStream.ofList others).kinds = stream.kinds := by
      rw [TokenStream.kinds_ofList, TokenStream.kinds_ofList, alike]
    simp only [result, other, TokenStream.parse_eq, same, true_and]
    cases (parseKinds stream.kinds limit .start).1 with
    | error error => exact ⟨rfl, rfl, error.cursor, rfl, rfl⟩
    | ok tree => simp only [Node.erase_map]

/-- All tokens of a row put at its end, the final one that is added included: the statement that is
    taken back is noted as before, and the error is about the bracket still, at its new place. -/
theorem parse_relabelled_taken_back :
    let place (i : Nat) : Position := ⟨i, 0, i, ⟨"shell", "1;;)"⟩⟩
    let tokens : List Token := [⟨.int 1, ⟨place 0, place 1⟩⟩, ⟨.newline, ⟨place 1, place 2⟩⟩,
      ⟨.newline, ⟨place 2, place 3⟩⟩, ⟨.symbol .closeRound, ⟨place 3, place 4⟩⟩]
    let moved := (TokenStream.ofList (tokens.map (Token.relabel fun _ => place 4))).parse
      standardLimit .start
    tokens ≠ [] ∧ moved.2.events = #[.rolledBack ⟨3⟩ 0] ∧
      moved.1 = .error ⟨.invalidSyntax, "Token cannot appear after previous tokens",
        .empty (place 4)⟩ := by
  intro place tokens moved
  have nonempty : tokens ≠ [] := List.cons_ne_nil _ _
  obtain ⟨_, same, _⟩ := parse_relabelled (fun _ => place 4) standardLimit tokens nonempty
  have outcome : ((TokenStream.ofList tokens).parse standardLimit .start).1 =
      .error ⟨.invalidSyntax, "Token cannot appear after previous tokens",
        ⟨place 3, place 4⟩⟩ := (TokenStream.parse_outcome _ _ _).trans (by cbv)
  have events : ((TokenStream.ofList tokens).parse standardLimit .start).2.events =
      #[.rolledBack ⟨3⟩ 0] := by decide +kernel
  refine ⟨nonempty, ?_, ?_⟩
  · simp only [moved, same, events]
  · simp only [moved, same, outcome]
    rfl

end Sharp
