import Sharp.Proofs.Grammar.Acceptance
import Sharp.Proofs.Grammar.CallSites
import Sharp.Proofs.Grammar.Unhindered

/-!
Which refusal is told. In a row without returns whose statements are never taken back, the first
rule that is refused ends the program, and the error is about the token there. What it says depends
on the token before: on who passed it, and on whether the nesting was full by then.
-/
namespace Sharp

namespace Grammar

/-- A token passed by a rule, with the number of guarded rules under way. -/
structure Passing where
  rule : Rule
  token : Cursor
  depth : Nat

namespace Parser

/-- The tokens passed in turn, those passed inside of calls among them. -/
def passings {α : Type} (kinds : Kinds) (runner : Runner)
    (inside : Rule → Cursor → Session → List Passing) (rule : Rule) :
    Parser α → Cursor → Session → List Passing
  | .done _, _, _ => []
  | .raise _, _, _ => []
  | .look next, c, s => (next c (kinds.kindAt c)).passings kinds runner inside rule c s
  | .advance next, c, s => ⟨rule, c, s.depth⟩ :: next.passings kinds runner inside rule c.next s
  | .attempt inner next, c, s =>
    inside inner c s ++
      match runner inner c s with
      | (.ok parsed, after) =>
        (next (.ok parsed.value)).passings kinds runner inside rule parsed.cursor after
      | (.error error, after) => (next (.error error)).passings kinds runner inside rule c after
  | .note event next, c, s => next.passings kinds runner inside rule c (s.note event)

end Parser

/-- The tokens that a rule passes in turn, with room for `calls` calls inside one another. -/
def Rule.passings (kinds : Kinds) (limit : Limit) :
    (calls : Nat) → Rule → Cursor → Session → List Passing
  | 0, _, _, _ => []
  | calls + 1, rule, c, s =>
    let body := (rule.parser kinds.size).passings kinds (run kinds limit calls)
      (passings kinds limit calls) rule c
    if rule.guarded then if limit.allows (s.depth + 1) then body s.enter else []
    else body s

/-- How a rule that starts at a given depth fails if something is refused: at its first token, or
    right behind the token passed last. -/
inductive Refused (kinds : Kinds) (most : Nat) (rule : Rule) (c : Cursor) (depth : Nat) :
    List Passing → SyntaxError → Prop
  | atOnce : most < depth + rule.levels →
    Refused kinds most rule c depth [] ⟨rule.refusal (decide (depth = most)), c⟩
  | behind {front : List Passing} {last : Passing} :
    c.index ≤ last.token.index → last.depth ≤ most →
    Refused kinds most rule c depth (front ++ [last])
      ⟨last.rule.refusalBehind (kinds.kindAt last.token) (decide (last.depth = most)),
        last.token.next⟩

/-- Far from the limit nothing is refused before a token is passed. -/
theorem Refused.exists_last {kinds : Kinds} {most : Nat} {rule : Rule} {c : Cursor} {depth : Nat}
    {passed : List Passing} {error : SyntaxError}
    (refused : Refused kinds most rule c depth passed error) (far : depth + rule.levels ≤ most) :
    ∃ front last, passed = front ++ [last] ∧ last.depth ≤ most ∧
      error = ⟨last.rule.refusalBehind (kinds.kindAt last.token) (decide (last.depth = most)),
        last.token.next⟩ := by
  cases refused with
  | atOnce deep => omega
  | @behind front last ahead shallow => exact ⟨front, last, rfl, shallow, rfl⟩

/-- Unless a statement is taken back, nothing is noted, or one refusal and the run fails there. -/
def EndsRefused {α : Type} (most : Nat) (s : Session) (result : Outcome α × Session)
    (met : SyntaxError → Prop) : Prop :=
  (∀ c consumed, .rolledBack c consumed ∉ result.2.events) → result.2.events = s.events ∨
    ∃ error, result.1 = .error error ∧
      result.2.events = s.events.push (.nestingLimit error.cursor (most + 1)) ∧ met error

section Telling

variable {inner : Rule} {c : Cursor} {error : SyntaxError}

theorem tell_refusal (told : Option (List TokenClass)) (full : Bool) :
    tell told c ⟨inner.refusal full, c⟩ = ⟨said inner told full, c⟩ := by
  cases told with
  | none => rfl
  | some classes => exact (Parser.orExpected_eq (Nat.le_refl _) classes).trans (if_pos rfl)

theorem tell_later (later : c.index < error.cursor.index) (told : Option (List TokenClass)) :
    tell told c error = error := by
  cases told with
  | none => rfl
  | some classes =>
    have other : error.cursor ≠ c := fun same => Nat.lt_irrefl _ (same ▸ later)
    exact (Parser.orExpected_eq (Nat.le_of_lt later) classes).trans (if_neg other)

end Telling

namespace Parser

variable {α : Type} {kinds : Kinds} {runner : Runner}
  {inside : Rule → Cursor → Session → List Passing} {rule inner : Rule} {start c : Cursor}
  {depth most : Nat} {before : List Passing} {last : Option Cursor} {s : Session}

/-- The tokens passed so far since a rule began: none at its first token, and the last one by the
    rule itself where that is known. -/
structure Trail (rule : Rule) (start : Cursor) (depth : Nat) (before : List Passing)
    (last : Option Cursor) (c : Cursor) : Prop where
  ahead : start.index ≤ c.index
  first : last = none → c = start → before = []
  known : ∀ token, last = some token → c = token.next ∧ start.index ≤ token.index ∧
    ∃ front, before = front ++ [⟨rule, token, depth⟩]

theorem Trail.fresh : Trail rule start depth [] none start where
  ahead := Nat.le_refl _
  first := fun _ _ => rfl
  known := fun _ other => by cases other

theorem Trail.step (trail : Trail rule start depth before last c) :
    Trail rule start depth (before ++ [⟨rule, c, depth⟩]) (some c) c.next where
  ahead := Nat.le_succ_of_le trail.ahead
  first := fun known => by cases known
  known := fun token same => by
    cases same
    exact ⟨rfl, trail.ahead, before, rfl⟩

theorem Trail.call {d : Cursor} (trail : Trail rule start depth before last c)
    (passes : kinds.Passes c d) (passed : List Passing) :
    Trail rule start depth (before ++ passed) none d where
  ahead := Nat.le_trans trail.ahead (Nat.le_of_lt passes.index_lt)
  first := fun _ same => by
    have further := Nat.lt_of_le_of_lt trail.ahead passes.index_lt
    exact absurd further (same ▸ Nat.lt_irrefl _)
  known := fun _ other => by cases other

/-- What becomes of the refusal of a called rule is how the caller fails. -/
theorem refused_of_site {told : Option (List TokenClass)} {passed : List Passing}
    {error : SyntaxError} (low : rule.depthInside depth ≤ most)
    (trail : Trail rule start (rule.depthInside depth) before last c)
    (site : Site kinds rule start none inner last c told)
    (refused : Refused kinds most inner c (rule.depthInside depth) passed error) :
    Refused kinds most rule start depth (before ++ passed) (tell told c error) := by
  cases refused with
  | behind ahead shallow =>
    rw [tell_later (Nat.lt_succ_of_le ahead), ← List.append_assoc]
    exact .behind (Nat.le_trans trail.ahead ahead) shallow
  | atOnce deep =>
    rw [tell_refusal, List.append_nil]
    cases last with
    | none =>
      obtain ⟨rfl, levels, alike⟩ := site
      rw [trail.first rfl rfl]
      have same := alike (decide (rule.depthInside depth = most))
      rw [Option.none_or] at same
      rw [same]
      have deeper : most < depth + rule.levels ∧
          (decide (rule.depthInside depth = most) && !rule.guarded) = decide (depth = most) := by
        unfold Rule.depthInside at low deep levels ⊢
        cases guarded : rule.guarded with
        | false =>
          simp only [guarded, Bool.false_eq_true, if_false] at deep levels
          exact ⟨by omega, Bool.and_true _⟩
        | true =>
          -- A guarded rule that has got this far was not at full depth.
          simp only [guarded, if_true] at low deep levels
          have other : depth ≠ most := by omega
          exact ⟨by omega, by simp [other]⟩
      rw [deeper.2]
      exact .atOnce deeper.1
    | some token =>
      obtain ⟨rfl, ahead, front, rfl⟩ := trail.known token rfl
      rw [site (decide (rule.depthInside depth = most))]
      exact .behind ahead low

/-- The step lemma: if the calls of a rule end so, the rule itself does. -/
theorem exec_endsRefused {p : Parser α} {goOn : α → Option Cursor → Cursor → Prop}
    {want : Outcome α → Prop} (low : rule.depthInside depth ≤ most)
    (keeps : ∀ rule c s, (runner rule c s).2.depth = s.depth)
    (moves : ∀ rule c s, Moved kinds c (runner rule c s).1)
    (remembers : ∀ rule c s, (runner rule c s).2.Remembers s)
    (calls : ∀ inner d t, (headway kinds (fun _ _ _ => True) rule start).allowed inner d →
      t.depth = rule.depthInside depth →
      EndsRefused most t (runner inner d t) (Refused kinds most inner d t.depth (inside inner d t)))
    (meets : p.Meets kinds (headway kinds (fun _ _ _ => True) rule start) c want)
    (asks : p.Asks kinds (Site kinds rule start none) last c goOn)
    (trail : Trail rule start (rule.depthInside depth) before last c)
    (level : s.depth = rule.depthInside depth) :
    EndsRefused most s (p.exec kinds runner c s) (Refused kinds most rule start depth
      (before ++ p.passings kinds runner inside rule c s)) := by
  induction p generalizing before last c s with
  | done => exact fun _ => .inl rfl
  | raise => exact fun _ => .inl rfl
  | look next ih => exact ih c (kinds.kindAt c) meets asks trail level
  | advance next ih =>
    have rest := ih meets.2 asks trail.step level
    rwa [List.append_assoc, List.singleton_append, ← level] at rest
  | note => exact asks.elim
  | attempt inner next ih =>
    obtain ⟨allowed, success, failure⟩ := meets
    obtain ⟨⟨told, site, gives⟩, goes⟩ := asks
    have called := calls inner c s allowed level
    have moved := moves inner c s
    have still := keeps inner c s
    rw [level] at called
    simp only [exec, passings]
    rcases ran : runner inner c s with ⟨outcome, after⟩
    rw [ran] at called moved still
    cases outcome with
    | ok parsed =>
      have rest := ih (.ok parsed.value) (success parsed ⟨moved, trivial⟩)
        (goes parsed.value parsed.cursor moved) (trail.call moved (inside inner c s))
        (still.trans level)
      rw [List.append_assoc] at rest
      intro kept
      have quiet (d : Cursor) (consumed : Nat) : .rolledBack d consumed ∉ after.events :=
        fun noted => kept d consumed (exec_remembers kinds remembers _ _ _ _ noted)
      rcases called quiet with same | ⟨error, fails, _⟩
      · rw [← show after.events = s.events from same]
        exact rest kept
      · cases fails
    | error error =>
      have told_of := gives error moved
      intro kept
      dsimp only at kept ⊢
      generalize next (.error error) = rest at told_of kept ⊢
      cases rest with
      | raise raised =>
        obtain rfl : raised = tell told c error := told_of
        refine (called kept).imp_right fun ended => ?_
        obtain ⟨_, fails, noted, refused⟩ := ended
        cases fails
        refine ⟨_, rfl, (tell_cursor told c error).symm ▸ noted, ?_⟩
        rw [passings, List.append_nil]
        exact refused_of_site low trail site refused
      | note event rest =>
        cases event with
        | nestingLimit => exact told_of.elim
        | rolledBack d consumed =>
          refine absurd ?_ (kept d consumed)
          exact exec_remembers kinds remembers rest c _ _ Array.mem_push_self
      | done | look | advance | attempt => exact told_of.elim

end Parser

namespace Rule

variable {kinds : Kinds} {most : Nat}

/-- A rule that is refused itself says so. -/
theorem refusal_of_guarded {rule : Rule} (guarded : rule.guarded = true) :
    rule.refusal true = .nestingTooDeep ∧ 0 < rule.levels := by
  cases rule <;> cases guarded <;> exact ⟨rfl, by decide⟩

/-- The run lemma: in a row without returns every rule ends so. -/
theorem run_endsRefused (free : ∀ c, kinds.kindAt c ≠ .keyword .return) {calls : Nat} {rule : Rule}
    {c : Cursor} {s : Session} (enough : rule.weight kinds c < calls) (low : s.depth ≤ most) :
    EndsRefused most s (run kinds (some most) calls rule c s)
      (Refused kinds most rule c s.depth (passings kinds (some most) calls rule c s)) := by
  induction calls generalizing rule c s with
  | zero => omega
  | succ calls ih =>
    have body (t : Session) (same : t.depth = rule.depthInside s.depth) (low : t.depth ≤ most) :=
      Parser.exec_endsRefused (same ▸ low) (run_depth kinds (some most) calls)
        (run_moves calls) (run_remembers calls)
        (fun inner d u allowed level => ih
          (Nat.lt_of_lt_of_le (weight_lt_of_allowed allowed) (Nat.le_of_lt_succ enough))
          (level ▸ same ▸ low))
        (parser_moves (fun _ _ _ => True) rule kinds.size c)
        (rule.parser_asks kinds.size (free c)) .fresh same
    cases guarded : rule.guarded with
    | false =>
      have level : s.depth = rule.depthInside s.depth := by simp [depthInside, guarded]
      simp only [run, passings, guarded, Bool.false_eq_true, if_false]
      exact body s level low
    | true =>
      have level : s.enter.depth = rule.depthInside s.depth := by
        simp [depthInside, guarded, Session.enter]
      cases allowed : Limit.allows (some most) (s.depth + 1) with
      | true =>
        have deeper : s.enter.depth ≤ most := of_decide_eq_true allowed
        simp only [run, passings, guarded, allowed, if_true]
        exact body s.enter level deeper
      | false =>
        have full : s.depth = most := by
          have beyond : ¬ s.depth + 1 ≤ most := of_decide_eq_false allowed
          omega
        simp only [run, passings, guarded, allowed, Bool.false_eq_true, if_true, if_false]
        refine fun _ => .inr ⟨⟨.nestingTooDeep, c⟩, rfl, full ▸ rfl, ?_⟩
        obtain ⟨itself, deep⟩ := refusal_of_guarded guarded
        have ended : Refused kinds most rule c s.depth []
            ⟨rule.refusal (decide (s.depth = most)), c⟩ := .atOnce (by omega)
        rwa [decide_eq_true full, itself] at ended

end Rule

/-- A program notes what its block does, and fails if that does. -/
theorem parseKinds_of_block {kinds : Kinds} {limit : Limit} {s : Session} :
    let block := Rule.run kinds limit (Rule.enoughCalls kinds) .block .start s
    (parseKinds kinds limit s).2 = block.2 ∧
      ∀ error, block.1 = .error error → (parseKinds kinds limit s).1 = .error error := by
  intro block
  rcases ran : Rule.run kinds limit (Rule.enoughCalls kinds) .block .start s with ⟨outcome, after⟩
  simp only [block, parseKinds, Parser.program, Parser.bind_eq, Parser.exec_bind, Parser.read,
    Parser.exec, ran]
  cases outcome with
  | ok parsed =>
    refine ⟨?_, fun _ fails => by cases fails⟩
    -- Behind the block the program only looks whether the text has ended.
    simp only [Parser.ofExcept, Parser.peek, Parser.exec]
    split <;> rfl
  | error error => exact ⟨rfl, fun _ fails => fails ▸ rfl⟩

namespace TokenStream

theorem mem_of_front {tokens : List Token} {t : Token} (among : t ∈ (ofList tokens).front) :
    t ∈ tokens := by
  unfold ofList at among
  split at among
  · exact absurd among (Array.not_mem_empty t)
  · split at among
    · exact List.dropLast_subset tokens (List.mem_toArray.1 among)
    · exact List.mem_toArray.1 among

theorem kindAt_ofList (tokens : List Token) (c : Cursor) :
    (ofList tokens).kinds.kindAt c = .eof ∨
      ∃ t ∈ tokens, (ofList tokens).kinds.kindAt c = t.kind := by
  rw [kindAt_kinds, tokenAt, Array.getD_eq_getD_getElem?]
  cases found : (ofList tokens).front[c.index]? with
  | none => exact .inl (ofList tokens).ends
  | some t => exact .inr ⟨t, mem_of_front (Array.mem_of_getElem? found), rfl⟩

end TokenStream

end Grammar

open Grammar

/-- In a row without returns, if a rule is refused and no statement is taken back, then the program
    fails at that one refusal, right behind the token passed last. Nesting is said to be too deep
    there unless the rule that was refused stood at the first token of another one that says what
    it expected: always behind a separator, `THEN`, `ELSE`, `[` and the bracket of a call, and
    behind other words and signs that an expression or comparison follows if it is not itself the
    601st guarded rule. -/
theorem parse_refused (tokens : List Token) (free : ∀ t ∈ tokens, t.kind ≠ .keyword .return)
    (refused : ∃ c depth, Notice.parsing (.nestingLimit c depth) ∈ (parse tokens).notices)
    (kept : ∀ c consumed, Notice.parsing (.rolledBack c consumed) ∉ (parse tokens).notices) :
    let stream := TokenStream.ofList tokens
    ∃ front last, Rule.passings stream.kinds standardLimit (Rule.enoughCalls stream.kinds) .block
        .start .start = front ++ [last] ∧ last.depth ≤ 600 ∧
      let token := stream.tokenAt last.token.next
      let complaint := last.rule.refusalBehind (stream.tokenAt last.token).kind
        (decide (last.depth = 600))
      (parse tokens).notices = [.parsing (.nestingLimit last.token.next 601),
        .parseFailed "Invalid Syntax" (token.span.start.line + 1)] ∧
      (parse tokens).outcome = .error ⟨.invalidSyntax, complaint.message, token.span⟩ := by
  intro stream
  have open_free (c : Cursor) : stream.kinds.kindAt c ≠ .keyword .return := by
    rcases TokenStream.kindAt_ofList tokens c with ended | ⟨t, among, same⟩
    · exact fun same => by cases ended.symm.trans same
    · exact fun returns => free t among (same.symm.trans returns)
  have ended : EndsRefused 600 .start (Rule.run stream.kinds standardLimit
      (Rule.enoughCalls stream.kinds) .block .start .start) _ :=
    Rule.run_endsRefused open_free (Rule.weight_lt_enoughCalls stream.kinds .block .start)
      (Nat.zero_le 600)
  obtain ⟨session, failing⟩ := @parseKinds_of_block stream.kinds standardLimit .start
  have notices := parse_notices tokens
  rw [session] at notices
  rw [notices] at refused kept ⊢
  have quiet (c : Cursor) (consumed : Nat) : Event.rolledBack c consumed ∉ _ := fun noted =>
    kept c consumed (List.mem_append_left _ (List.mem_map_of_mem (Array.mem_toList_iff.2 noted)))
  rcases ended quiet with same | ⟨error, fails, noted, met⟩
  · obtain ⟨c, depth, noted⟩ := refused
    rw [same] at noted
    cases concluded : (parse tokens).outcome with
    | ok tree => simp [concluded, conclusion, Session.start] at noted
    | error d => simp [concluded, conclusion, Session.start] at noted
  · have outcome : (parse tokens).outcome = .error (stream.diagnose error) :=
      TokenStream.parse_eq_error.2 ⟨error, failing error fails, rfl⟩
    rw [noted, outcome]
    obtain ⟨front, last, passed, shallow, rfl⟩ := met.exists_last (by decide)
    refine ⟨front, last, passed, shallow, rfl, ?_⟩
    rw [← TokenStream.kindAt_kinds]
    rfl

/-- Behind 200 opening brackets the number is refused, and the error asks for a number there. -/
theorem parse_refused_item :
    let place (i : Nat) : Span := .empty ⟨i, 0, i, ⟨"", ""⟩⟩
    let tokens : List Token := List.replicate 200 ⟨.symbol .openSquare, place 0⟩ ++
      [⟨.int 1, place 200⟩, ⟨.eof, place 201⟩]
    let stream := TokenStream.ofList tokens
    (∀ t ∈ tokens, t.kind ≠ .keyword .return) ∧
      (parse tokens).notices =
        [.parsing (.nestingLimit ⟨200⟩ 601), .parseFailed "Invalid Syntax" 1] ∧
      (∃ front last, Rule.passings stream.kinds standardLimit (Rule.enoughCalls stream.kinds) .block
        .start .start = front ++ [last] ∧ last.token = ⟨199⟩) ∧
      (parse tokens).outcome =
        .error ⟨.invalidSyntax, expectation (Expected.itemOr .closeSquare), place 200⟩ := by
  intro place tokens stream
  have free : ∀ t ∈ tokens, t.kind ≠ .keyword .return := by decide +kernel
  have notices : (parse tokens).notices =
      [.parsing (.nestingLimit ⟨200⟩ 601), .parseFailed "Invalid Syntax" 1] := by decide +kernel
  have refused : ∃ c depth, Notice.parsing (.nestingLimit c depth) ∈ (parse tokens).notices :=
    ⟨⟨200⟩, 601, notices ▸ List.mem_cons_self⟩
  have kept (c : Cursor) (consumed : Nat) :
      Notice.parsing (.rolledBack c consumed) ∉ (parse tokens).notices := by
    simp [notices]
  obtain ⟨front, last, passed, _, same, outcome⟩ := parse_refused tokens free refused kept
  rw [notices] at same
  have spot : last.token = ⟨199⟩ := by
    have next : (⟨200⟩ : Cursor) = last.token.next := by
      simpa using (List.cons.inj same).1
    have index : 200 = last.token.index + 1 := congrArg Cursor.index next
    exact congrArg Cursor.mk (show last.token.index = 199 by omega)
  rw [spot] at outcome
  exact ⟨free, notices, ⟨front, last, passed, spot⟩, outcome⟩

end Sharp
