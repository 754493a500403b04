import Sharp.Program
import Sharp.Proofs.Grammar.Placement
import Sharp.Proofs.Grammar.Projection
import Sharp.Proofs.Grammar.RoundTrip
import Sharp.Proofs.Grammar.Yield

/-!
Accepted rows of tokens. Only the tokens before the first final one count. If they are accepted, the
grammar derives them for the tree that comes out, whatever was tried in vain on the way.
-/
namespace Sharp

open Grammar Node

namespace Grammar.TokenStream

/-- A final token that is added to a row changes nothing before it. -/
theorem takeWhile_kinds (tokens : List Token) :
    ((ofList tokens).kinds.ahead .start).takeWhile (fun kind => decide (kind ≠ .eof)) =
      (tokens.map Token.kind).takeWhile fun kind => decide (kind ≠ .eof) := by
  have whole (stream : TokenStream) :
      stream.kinds.ahead .start = (stream.front.toList.map Token.kind) ++ [.eof] := by
    simp [Kinds.ahead, kinds, Cursor.start]
  have added (word : List TokenKind) :
      (word ++ [TokenKind.eof]).takeWhile (fun kind => decide (kind ≠ .eof)) =
        word.takeWhile fun kind => decide (kind ≠ .eof) := by
    induction word with
    | nil => rfl
    | cons kind word ih => simp only [List.cons_append, List.takeWhile_cons, ih]
  rw [whole, ofList]
  split
  · rename_i empty
    simp [List.getLast?_eq_none_iff.1 empty]
  · rename_i last found
    split
    · rename_i ends
      obtain ⟨front, rfl⟩ := List.getLast?_eq_some_iff.1 found
      simp [ends]
    · exact added _

theorem ahead_of_ended {tokens : List Token} {word : List TokenKind}
    (spelled : tokens.map Token.kind = word ++ [.eof]) :
    (ofList tokens).kinds.ahead .start = word ++ [.eof] := by
  obtain ⟨front, back, rfl, rfl, ends⟩ := List.map_eq_append_iff.1 spelled
  obtain ⟨last, rfl, final⟩ := List.map_eq_singleton_iff.1 ends
  simp [ofList, final, Kinds.ahead, kinds, Cursor.start]

/-- A row that is ended is read up to its final token. -/
theorem reads_of_ended {tokens : List Token} {word : List TokenKind}
    (spelled : tokens.map Token.kind = word ++ [.eof]) (proper : .eof ∉ word) :
    (ofList tokens).kinds.Reads .start word ⟨word.length⟩ ∧
      (ofList tokens).kinds.kindAt ⟨word.length⟩ = .eof := by
  have ahead := ahead_of_ended spelled
  have behind : (ofList tokens).kinds.ahead ⟨word.length⟩ = [.eof] := by
    have dropped : (ofList tokens).kinds.ahead ⟨word.length⟩ =
        ((ofList tokens).kinds.ahead .start).drop word.length := by
      simp [Kinds.ahead, Cursor.start]
    rw [dropped, ahead, List.drop_left]
  constructor
  · exact Kinds.reads_iff_ahead.2 ⟨proper, by rw [ahead, behind], (Nat.zero_add _).symm⟩
  · rw [Kinds.kindAt_eq_headD, behind, List.headD_cons]

/-- Behind the tokens of a row its final one stands for ever. -/
theorem tokenAt_ofList {front : List Token} {final : Token} (ends : final.kind = .eof)
    (c : Cursor) : (ofList (front ++ [final])).tokenAt c = front.getD c.index final := by
  simp [tokenAt, ofList, ends]

theorem kinds_of_ends {final : Token} (ends : final.kind = .eof) (front : List Token) :
    (ofList (front ++ [final])).kinds = ((front ++ [final]).map Token.kind).toArray := by
  simp [kinds, ofList, ends]

theorem tokenAt_of_split {t final : Token} {front before after : List Token}
    (ends : final.kind = .eof) (split : front ++ [final] = before ++ t :: after) :
    (ofList (front ++ [final])).tokenAt ⟨before.length⟩ = t := by
  have whole (i : Nat) : front.getD i final = (front ++ [final]).getD i final := by
    rw [List.getD_eq_getElem?_getD, List.getD_eq_getElem?_getD, List.getElem?_append]
    by_cases within : i < front.length
    · rw [if_pos within]
    · rw [if_neg within, List.getElem?_eq_none (Nat.le_of_not_lt within)]
      cases i - front.length <;> rfl
  rw [tokenAt_ofList ends, whole, split]
  simp

theorem tokenAt_of_ended {tokens : List Token} {word : List TokenKind}
    (spelled : tokens.map Token.kind = word ++ [.eof]) {i : Nat} (within : i < tokens.length) :
    (ofList tokens).tokenAt ⟨i⟩ = tokens[i] := by
  obtain ⟨front, back, rfl, -, ends⟩ := List.map_eq_append_iff.1 spelled
  obtain ⟨final, rfl, isFinal⟩ := List.map_eq_singleton_iff.1 ends
  have split := (List.take_append_drop i (front ++ [final])).symm
  rw [List.drop_eq_getElem_cons within] at split
  have found := tokenAt_of_split isFinal split
  rwa [List.length_take_of_le (Nat.le_of_lt within)] at found

/-- The tree of an accepted row, before its nodes get their spans. -/
theorem parse_eq_ok {stream : TokenStream} {limit : Limit} {result : Node Span} :
    (stream.parse limit .start).1 = .ok result ↔
      ∃ tree, (parseKinds stream.kinds limit .start).1 = .ok tree ∧
        result = tree.map stream.spanOf := by
  simp only [parse_eq]
  cases (parseKinds stream.kinds limit .start).1 with
  | error error => simp
  | ok tree => simp [eq_comm]

theorem parse_eq_error {stream : TokenStream} {limit : Limit} {d : Diagnostic} :
    (stream.parse limit .start).1 = .error d ↔
      ∃ error, (parseKinds stream.kinds limit .start).1 = .error error ∧
        d = stream.diagnose error := by
  simp only [parse_eq]
  cases (parseKinds stream.kinds limit .start).1 with
  | error error => simp [eq_comm]
  | ok tree => simp

end Grammar.TokenStream

theorem parse_outcome (tokens : List Token) :
    let stream := TokenStream.ofList tokens
    (parse tokens).outcome =
      match (parseKinds stream.kinds standardLimit .start).1 with
      | .ok tree => .ok (tree.map stream.spanOf)
      | .error error => .error (stream.diagnose error) :=
  TokenStream.parse_outcome _ _ _

/-- The notices of a report but for the last are what was noted over the kinds of its tokens. -/
theorem parse_notices (tokens : List Token) : (parse tokens).notices =
    (parseKinds (TokenStream.ofList tokens).kinds standardLimit .start).2.events.toList.map
      .parsing ++ [conclusion (parse tokens).outcome] := by
  rw [← TokenStream.parse_session]
  rfl

theorem parse_derives (tokens : List Token) (tree : Node Span)
    (accepted : (parse tokens).outcome = .ok tree) :
    let word := (tokens.map Token.kind).takeWhile fun kind => decide (kind ≠ .eof)
    Derives word (.tree .block tree.erase) ∧
      tree.leaves = word.filter TokenKind.isLeaf ∧
      ∀ body ∈ tree.bodies, body.Fits := by
  obtain ⟨inner, parsed, rfl⟩ := TokenStream.parse_eq_ok.1 accepted
  obtain ⟨d, ⟨word, reads, derived⟩, finished⟩ := parseKinds_spells parsed
  rw [(reads.eq_takeWhile finished).trans (TokenStream.takeWhile_kinds tokens)] at derived
  have leaves := derived.leaves_eq
  have bodies := derived.bodies_fit
  simp only [Phrase.shapes, List.flatMap_singleton, Node.erase] at leaves bodies
  rw [Node.leaves_map] at leaves
  rw [Node.bodies_map, List.forall_mem_map] at bodies
  refine ⟨?_, ?_, fun body among => ?_⟩
  · rwa [Node.erase_map]
  · rwa [Node.leaves_map]
  · rw [Node.bodies_map] at among
    obtain ⟨body, inside, rfl⟩ := List.mem_map.1 among
    exact Body.fits_map.2 (Body.fits_map.1 (bodies body inside))

/-- The value that was tried behind `RETURN` leaves nothing behind. -/
theorem parse_derives_bare_return :
    let place : Span := .empty (.start ⟨"", ""⟩)
    let tree : Node Span := .block place [.returnWith place none, .int place 7]
    (parse [⟨.keyword .return, place⟩, ⟨.newline, place⟩, ⟨.int 7, place⟩]).outcome = .ok tree ∧
      Derives [.keyword .return, .newline, .int 7] (.tree .block tree.erase) ∧
      tree.leaves = [.int 7] := by
  intro place tree
  have accepted : (parse [⟨.keyword .return, place⟩, ⟨.newline, place⟩, ⟨.int 7, place⟩]).outcome =
      .ok tree := (parse_outcome _).trans (by cbv)
  have derives := parse_derives _ tree accepted
  exact ⟨accepted, derives.1, derives.2.1⟩

/-- A rendered tree is accepted and comes out again, whatever places its tokens have. -/
theorem parse_render (tree : Shape) (wellFormed : tree.WellFormed .block) (low : tree.height ≤ 100)
    (tokens : List Token) (spelled : tokens.map Token.kind = tree.render ++ [.eof]) :
    ∃ result, (parse tokens).outcome = .ok result ∧ result.erase = tree := by
  let kinds := (TokenStream.ofList tokens).kinds
  let m : Cursor := ⟨tree.render.length⟩
  have ahead : kinds.ahead .start = tree.render ++ [.eof] := TokenStream.ahead_of_ended spelled
  have behind : kinds.ahead m = [.eof] := by
    have dropped : kinds.ahead m = (kinds.ahead .start).drop tree.render.length := by
      simp [Kinds.ahead, m, Cursor.start]
    rw [dropped, ahead, List.drop_left]
  have reads : kinds.Reads .start tree.render m := Kinds.reads_iff_ahead.2
    ⟨eof_not_mem_render wellFormed, by rw [ahead, behind], (Nat.zero_add _).symm⟩
  have finished : kinds.kindAt m = .eof := by rw [Kinds.kindAt_eq_headD, behind, List.headD_cons]
  obtain ⟨inner, answered, same⟩ := recovered_of_wellFormed wellFormed kinds 0 0 .start m m reads
    ⟨rfl, by simp [finished]⟩ (by rw [finished]; rfl) (show 0 + 6 * tree.height ≤ 600 + 3 by omega)
  have parsed : (parseKinds kinds standardLimit .start).1 = .ok inner :=
    parseKinds_eq_ok.2 ⟨m, answered, finished⟩
  refine ⟨_, TokenStream.parse_eq_ok.2 ⟨inner, parsed, rfl⟩, ?_⟩
  rw [Node.erase_map, same]

/-- A statement on the line of its clause in front of a block that is closed. -/
theorem parse_render_choice :
    let place : Span := .empty (.start ⟨"", ""⟩)
    let choice : Shape := .ifElse () [⟨.int () 1, ⟨.returnWith () none, false⟩⟩,
      ⟨.unary () .not (.access () "x"), ⟨.block () [.breakLoop ()], true⟩⟩] none
    let tree : Shape := .block () [choice, .list () []]
    tree.WellFormed .block ∧ tree.height = 3 ∧
      ∃ result, (parse ((tree.render ++ [TokenKind.eof]).map fun kind => ⟨kind, place⟩)).outcome =
        .ok result ∧ result.erase = tree := by
  intro place choice tree
  have second : (Node.unary () .not (.access () "x") : Shape).WellFormed .expression :=
    .unary .access
  have body : (Node.block () [.breakLoop ()] : Shape).WellFormed .block :=
    .block (by simp) (by simpa using .breakLoop)
  have isChoice : choice.WellFormed .expression :=
    .ifElse (by simp) (by simpa using ⟨.int, second⟩)
      (by simpa [Body.place] using ⟨.returnWith (by simp), body⟩) (by simp)
  have wellFormed : tree.WellFormed .block :=
    .block (by simp) (by simpa [tree] using ⟨.bare isChoice, .bare (.list (by simp))⟩)
  refine ⟨wellFormed, by decide, parse_render tree wellFormed (by decide) _ ?_⟩
  simp [Function.comp_def]

/-- Under any limit, an accepted row is read alike without one just if no value could be read behind
    the bare returns in its tree. -/
theorem parse_unguarded_iff (tokens : List Token) (limit : Limit) (result : Node Span)
    (accepted : ((TokenStream.ofList tokens).parse limit .start).1 = .ok result) :
    let stream := TokenStream.ofList tokens
    ∃ tree : Tree, (parseKinds stream.kinds limit .start).1 = .ok tree ∧
      result = tree.map stream.spanOf ∧
      ((stream.parse none .start).1 = .ok result ↔
        ∀ place ∈ tree.bareReturns, ∃ error,
          Rule.answer stream.kinds none 0 .expression place.first.next = .error error) := by
  intro stream
  obtain ⟨tree, parsed, rfl⟩ := TokenStream.parse_eq_ok.1 accepted
  refine ⟨tree, parsed, rfl, ?_⟩
  constructor
  · intro unguarded place bare
    obtain ⟨other, parsedToo, same⟩ := TokenStream.parse_eq_ok.1 unguarded
    have shapes : tree.erase = other.erase := by
      rw [← Node.erase_map stream.spanOf tree, same, Node.erase_map]
    obtain ⟨twin, bareToo, there⟩ :=
      exists_bareReturn (parseKinds_marks parsed parsedToo) shapes bare
    rw [← there]
    exact (parseKinds_unguarded_iff _ none other parsedToo).1 parsedToo twin bareToo
  · intro settled
    have unguarded := (parseKinds_unguarded_iff _ limit tree parsed).2 settled
    exact TokenStream.parse_eq_ok.2 ⟨tree, unguarded, rfl⟩

/-- `IF 1 THEN RETURN (1)` at a limit of six levels: the returned value is refused, the return goes
    without it, and the brackets behind it make a call of the whole choice. -/
theorem parse_unguarded_swallowed_value :
    let place : Span := .empty (.start ⟨"", ""⟩)
    let tokens : List Token := [.keyword .if, .int 1, .keyword .then, .keyword .return,
      .symbol .openRound, .int 1, .symbol .closeRound].map fun kind => ⟨kind, place⟩
    let choice : Node Span := .ifElse place [⟨.int place 1, ⟨.returnWith place none, false⟩⟩] none
    let result : Node Span := .block place [.call place choice [.int place 1]]
    ((TokenStream.ofList tokens).parse (some 6) .start).1 = .ok result ∧
      ((TokenStream.ofList tokens).parse none .start).1 ≠ .ok result := by
  intro place tokens choice result
  have accepted : ((TokenStream.ofList tokens).parse (some 6) .start).1 = .ok result :=
    (TokenStream.parse_outcome _ _ _).trans (by cbv)
  refine ⟨accepted, fun same => ?_⟩
  obtain ⟨tree, parsed, _, unguarded⟩ := parse_unguarded_iff tokens (some 6) result accepted
  have bare : Extent.token ⟨3⟩ ∈ tree.bareReturns := by
    have exact : (parseKinds (TokenStream.ofList tokens).kinds (some 6) .start).1 =
      .ok (.block ⟨⟨0⟩, ⟨7⟩⟩ [.call ⟨⟨0⟩, ⟨6⟩⟩ (.ifElse ⟨⟨0⟩, ⟨3⟩⟩
        [⟨.int (.token ⟨1⟩) 1, ⟨.returnWith (.token ⟨3⟩) none, false⟩⟩] none)
        [.int (.token ⟨5⟩) 1]]) := by cbv
    cases exact.symm.trans parsed
    decide
  obtain ⟨error, fails⟩ := unguarded.1 same _ bare
  have succeeds : Rule.answer (TokenStream.ofList tokens).kinds none 0 .expression ⟨4⟩ =
      .ok ⟨.int (.token ⟨5⟩) 1, ⟨7⟩⟩ := by cbv
  exact absurd (fails.symm.trans succeeds) (by simp)

end Sharp
