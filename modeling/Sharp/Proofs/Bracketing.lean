import Sharp.Proofs.Grammar.Fences
import Sharp.Proofs.Spans

/-!
Brackets inside of spans. The tokens inside the span of a node have their brackets in pairs, unless
the node is an operation: its span goes from its first operand to its second one, and brackets
around an operand are no part of the operand's span. So it cuts off the brackets that open right in
front of it and those that close right behind it, and with them its brackets would be in pairs.
-/
namespace Sharp

open Grammar

def Span.Covers (span : Span) (t : Token) : Prop :=
  span.start.index ≤ t.span.start.index ∧ t.span.stop.index ≤ span.stop.index

instance (span : Span) (t : Token) : Decidable (span.Covers t) :=
  inferInstanceAs (Decidable (_ ∧ _))

def Span.tokensInside (tokens : List Token) (span : Span) : List Token :=
  tokens.filter fun t => decide (span.Covers t)

/-- Brackets that a stretch of a row cuts off: the stretch has its brackets in pairs together with
    them, and not without them. -/
structure CutsOff (tokens inside opening closing : List Token) : Prop where
  placed : ∃ before behind, tokens = before ++ opening ++ inside ++ closing ++ behind
  opens : ∀ t ∈ opening, t.kind = .symbol .openRound
  closes : ∀ t ∈ closing, t.kind = .symbol .closeRound
  together : Balanced ((opening ++ inside ++ closing).map Token.kind)
  without : Balanced (inside.map Token.kind) ↔ opening = [] ∧ closing = []

section Rows

variable {front before row after : List Token} {final : Token}

namespace Grammar

theorem TokenStream.exists_tokenAt (ends : final.kind = .eof)
    (split : front ++ [final] = before ++ row ++ after) :
    ∀ t ∈ row, ∃ c : Cursor, before.length ≤ c.index ∧ c.index < before.length + row.length ∧
      (TokenStream.ofList (front ++ [final])).tokenAt c = t := by
  intro t among
  obtain ⟨earlier, later, rfl⟩ := List.append_of_mem among
  have here : front ++ [final] = (before ++ earlier) ++ t :: (later ++ after) := by simp [split]
  refine ⟨_, ?_, ?_, TokenStream.tokenAt_of_split ends here⟩
  · simp
  · simp

/-- A word that is read splits the row, in front of its final token. -/
theorem Kinds.Reads.split {c d : Cursor} {word : List TokenKind} (ends : final.kind = .eof)
    (reads : (TokenStream.ofList (front ++ [final])).kinds.Reads c word d) (more : word ≠ []) :
    ∃ before row after, front = before ++ row ++ after ∧ before.length = c.index ∧
      row.map Token.kind = word := by
  have inside : c.index < (front ++ [final]).length := by
    obtain ⟨kind, rest, rfl⟩ := List.exists_cons_of_ne_nil more
    have passes : (TokenStream.ofList (front ++ [final])).kinds.Passes c d := ⟨kind, rest, reads⟩
    simpa [TokenStream.kinds_of_ends ends] using passes.index_lt_size
  obtain ⟨free, ahead, _⟩ := Kinds.reads_iff_ahead.1 reads
  rw [Kinds.ahead, TokenStream.kinds_of_ends ends, List.map_drop.symm] at ahead
  obtain ⟨row, after, same, rfl, _⟩ := List.map_eq_append_iff.1 ahead
  have whole : front ++ [final] = (front ++ [final]).take c.index ++ row ++ after := by
    rw [List.append_assoc, ← same, List.take_append_drop]
  have start : ((front ++ [final]).take c.index).length = c.index :=
    List.length_take_of_le (Nat.le_of_lt inside)
  rcases List.eq_nil_or_concat' after with rfl | ⟨after, last, rfl⟩
  · obtain ⟨row, last, rfl⟩ := (List.eq_nil_or_concat' row).resolve_left (by simpa using more)
    rw [List.append_nil, ← List.append_assoc] at whole
    have same : final = last := by simpa using (List.append_inj' whole rfl).2
    simp [← same, ends] at free
  · rw [← List.append_assoc] at whole
    obtain ⟨split, _⟩ := List.append_inj' whole rfl
    exact ⟨_, row, after, split, start, rfl⟩

end Grammar

namespace Lined

variable {extent : Extent}

/-- A token that takes up room lies in the span of a stretch if it stands in the stretch. -/
theorem covers_iff (lined : Lined source front final) (c : Cursor)
    (room : ((TokenStream.ofList (front ++ [final])).tokenAt c).span.start.index <
      ((TokenStream.ofList (front ++ [final])).tokenAt c).span.stop.index) :
    ((TokenStream.ofList (front ++ [final])).spanOf extent).Covers
        ((TokenStream.ofList (front ++ [final])).tokenAt c) ↔
      extent.first.index ≤ c.index ∧ c.index ≤ extent.last.index := by
  constructor
  · intro covers
    obtain ⟨starts, stops⟩ := covers
    simp only [TokenStream.spanOf, Span.join] at starts stops
    constructor
    · by_contra earlier
      have apart := lined.stop_le_start (Nat.lt_of_not_le earlier)
      omega
    · by_contra later
      have apart := lined.stop_le_start (Nat.lt_of_not_le later)
      omega
  · intro inside
    exact ⟨lined.start_le_start inside.1, lined.stop_le_stop inside.2⟩

theorem covers_iff_of_mem (lined : Lined source front final) (extent : Extent)
    (split : front = before ++ row ++ after) :
    ∀ t ∈ row, ∃ i, before.length ≤ i ∧ i < before.length + row.length ∧
      (((TokenStream.ofList (front ++ [final])).spanOf extent).Covers t ↔
        extent.first.index ≤ i ∧ i ≤ extent.last.index) := by
  intro t among
  have whole : front ++ [final] = before ++ row ++ (after ++ [final]) := by simp [split]
  have room := lined.nonempty t (by simp [split, among])
  obtain ⟨c, starts, stops, rfl⟩ := TokenStream.exists_tokenAt lined.finishes whole t among
  exact ⟨c.index, starts, stops, lined.covers_iff c room⟩

/-- The final token takes up no room, so it lies in a span that ends with the text, and then so does
    all behind the start of the span. -/
theorem covers_of_covers_final (lined : Lined source front final) (split : front = before ++ row)
    (starts : extent.first.index ≤ before.length)
    (covered : ((TokenStream.ofList (front ++ [final])).spanOf extent).Covers final) :
    ∀ t ∈ row, ((TokenStream.ofList (front ++ [final])).spanOf extent).Covers t := by
  intro t among
  have whole : front ++ [final] = before ++ row ++ [final] := by rw [split]
  have ordered := (List.pairwise_append.1 lined.ordered).2.2 t (by simp [split, among]) final
    (List.mem_singleton_self final)
  obtain ⟨c, behind, _, rfl⟩ := TokenStream.exists_tokenAt lined.finishes whole t among
  exact ⟨lined.start_le_start (Nat.le_trans starts behind),
    Nat.le_trans (lined.empty ▸ ordered) covered.2⟩

/-- Inside the span of a stretch lie the tokens of the stretch and, if the text ends where it does,
    the final one. -/
theorem tokensInside_eq (lined : Lined source front final) (split : front = before ++ row ++ after)
    (first : extent.first.index = before.length)
    (last : extent.last.index + 1 = before.length + row.length) :
    let inside := ((TokenStream.ofList (front ++ [final])).spanOf extent).tokensInside
      (front ++ [final])
    inside = row ∨ after = [] ∧ inside = row ++ [final] := by
  let span := (TokenStream.ofList (front ++ [final])).spanOf extent
  have earlier : ∀ t ∈ before, ¬ decide (span.Covers t) = true := by
    intro t among covered
    have here : front = [] ++ before ++ (row ++ after) := by simp [split]
    obtain ⟨i, _, stops, covers⟩ := lined.covers_iff_of_mem extent here t among
    have inside := covers.1 (of_decide_eq_true covered)
    simp only [List.length_nil] at stops
    omega
  have among : ∀ t ∈ row, decide (span.Covers t) = true := by
    intro t among
    obtain ⟨i, starts, stops, covers⟩ := lined.covers_iff_of_mem extent split t among
    exact decide_eq_true (covers.2 (by omega))
  have later : ∀ t ∈ after, ¬ decide (span.Covers t) = true := by
    intro t among covered
    have here : front = (before ++ row) ++ after ++ [] := by simp [split]
    obtain ⟨i, starts, _, covers⟩ := lined.covers_iff_of_mem extent here t among
    have inside := covers.1 (of_decide_eq_true covered)
    simp only [List.length_append] at starts
    omega
  have upToFinal : span.tokensInside (front ++ [final]) = row ++ span.tokensInside [final] := by
    simp only [Span.tokensInside, split, List.filter_append]
    rw [List.filter_eq_nil_iff.2 earlier, List.filter_eq_self.2 among,
      List.filter_eq_nil_iff.2 later, List.nil_append, List.append_nil]
  intro inside
  by_cases covered : span.Covers final
  · have all : span.tokensInside [final] = [final] := by simp [Span.tokensInside, covered]
    have starts : extent.first.index ≤ (before ++ row).length := by simp [first]
    refine .inr ⟨List.eq_nil_iff_forall_not_mem.2 fun t behind => later t behind ?_, ?_⟩
    · exact decide_eq_true (lined.covers_of_covers_final split starts covered t behind)
    · exact all ▸ upToFinal
  · have none : span.tokensInside [final] = [] := by simp [Span.tokensInside, covered]
    rw [none, List.append_nil] at upToFinal
    exact .inl upToFinal

end Lined

end Rows

/-- A fenced tree and the brackets that its word lacks split the row. -/
theorem Grammar.Fence.split {front : List Token} {final : Token} (ends : final.kind = .eof)
    {c d : Cursor} {tree : Tree} {lead trail around : Nat} {word : List TokenKind}
    (fence : Fence (TokenStream.ofList (front ++ [final])).kinds c tree d lead trail around word)
    (inOrder : (Node.place tree).first.index ≤ (Node.place tree).last.index) :
    ∃ before opening row closing after,
      front = before ++ opening ++ row ++ (closing ++ after) ∧
      (Node.place tree).first.index = (before ++ opening).length ∧
      (Node.place tree).last.index + 1 = (before ++ opening).length + row.length ∧
      opening.map Token.kind = openRounds lead ∧ row.map Token.kind = word ∧
      closing.map Token.kind = closeRounds trail := by
  have inFront := fence.before
  have behind := fence.behind
  have length := fence.inside.index
  rw [Cursor.next_index] at length
  have more : word ≠ [] := by
    rintro rfl
    simp only [List.length_nil] at length
    omega
  -- Pairs around the tree beyond the brackets it lacks are left outside.
  rw [Nat.add_comm, openRounds, List.replicate_add] at inFront
  rw [closeRounds, List.replicate_add] at behind
  obtain ⟨b, _, opens⟩ := Kinds.reads_append.1 inFront
  obtain ⟨e, closes, _⟩ := Kinds.reads_append.1 behind
  obtain ⟨before, _, after, rfl, start, spelled⟩ :=
    ((opens.append fence.inside).append closes).split ends (by simp [more])
  obtain ⟨_, closing, rfl, spelled, closed⟩ := List.map_eq_append_iff.1 spelled
  obtain ⟨opening, row, rfl, opened, spelled⟩ := List.map_eq_append_iff.1 spelled
  have first : (Node.place tree).first.index = (before ++ opening).length := by
    rw [opens.index, ← opened, List.length_map, List.length_append, start]
  refine ⟨before, opening, row, closing, after, by simp, first, ?_, opened, spelled, closed⟩
  rw [length, first, ← spelled, List.length_map]

theorem map_eq_replicate {row : List Token} {n : Nat} {kind : TokenKind}
    (spelled : row.map Token.kind = List.replicate n kind) :
    (∀ t ∈ row, t.kind = kind) ∧ (row = [] ↔ n = 0) := by
  obtain ⟨rfl, all⟩ := List.eq_replicate_iff.1 spelled
  exact ⟨by simpa using all, by simp⟩

/-- The tokens inside the span of a node, and the brackets that the span cuts off. Only the span of
    an operation cuts off any, as it goes from the span of one operand to that of the other; all
    other spans have their brackets in pairs. -/
theorem run_spans_bracketed {source : Source} {tokens : List Token} {root : Node Span}
    (read : tokenize source = .ok tokens) (accepted : (run source).outcome = .ok root) :
    ∀ node ∈ root.nodes, ¬ node.IsBlock → node.SpansOperands Span.join ∧ ∃ opening closing,
      CutsOff tokens (node.place.tokensInside tokens) opening closing ∧
        (node.isOperation = false → opening = [] ∧ closing = []) := by
  obtain ⟨front, final, tree, rfl, lined, rfl, parsed⟩ := exists_parsed read accepted
  rw [Node.nodes_map, List.forall_mem_map]
  intro node among noBlock
  rw [Node.place_map, Node.isOperation_map]
  obtain ⟨_, _, lead, trail, _, word, fence⟩ :=
    parseKinds_allFenced parsed node among (mt Node.isBlock_map.2 noBlock)
  obtain ⟨before, opening, row, closing, after, split, first, last, opens, rfl, closes⟩ :=
    fence.split lined.finishes (parseKinds_tidy parsed node among).inOrder
  obtain ⟨areOpening, noOpening⟩ := map_eq_replicate opens
  obtain ⟨areClosing, noClosing⟩ := map_eq_replicate closes
  obtain ⟨tail, behind, inside, placed, plain⟩ : ∃ tail behind,
      ((TokenStream.ofList (front ++ [final])).spanOf node.place).tokensInside (front ++ [final]) =
        row ++ tail ∧
      front ++ [final] = before ++ opening ++ (row ++ tail) ++ closing ++ behind ∧
      Neutral (tail.map Token.kind) := by
    rcases lined.tokensInside_eq split first last with inFront | ⟨atEnd, toEnd⟩
    · exact ⟨[], after ++ [final], by simpa using inFront, by simp [split], fun _ => rfl⟩
    · obtain ⟨rfl, rfl⟩ := List.append_eq_nil_iff.1 atEnd
      refine ⟨[final], [], toEnd, by simp [split], fun due => ?_⟩
      simp [lined.finishes, Due.step]
  have lacks := fence.lacks.append plain
  rw [← List.map_append, ← inside] at lacks
  refine ⟨fence.spans.map fun _ _ => rfl, opening, closing,
    ⟨⟨before, behind, inside ▸ placed⟩, areOpening, areClosing, ?_, ?_⟩, ?_⟩
  · rw [List.map_append, List.map_append, opens, closes]
    exact lacks.enclosed []
  · rw [lacks.balanced_iff, noOpening, noClosing]
  · intro other
    obtain ⟨noLead, noTrail⟩ := fence.whole other
    exact ⟨noOpening.2 noLead, noClosing.2 noTrail⟩

/-- Brackets around a first operand are cut off: its span begins behind the opening one. -/
theorem run_spans_bracketed_sum :
    let source : Source := ⟨"shell", "(1) + 2"⟩
    let spot (i : Nat) : Position := ⟨i, 0, i, source⟩
    let tokens : List Token := [⟨.symbol .openRound, spot 0, spot 1⟩, ⟨.int 1, spot 1, spot 2⟩,
      ⟨.symbol .closeRound, spot 2, spot 3⟩, ⟨.symbol .plus, spot 4, spot 5⟩,
      ⟨.int 2, spot 6, spot 7⟩, ⟨.eof, spot 7, spot 7⟩]
    let sum : Node Span := .binary ⟨spot 1, spot 7⟩ .add (.int ⟨spot 1, spot 2⟩ 1)
      (.int ⟨spot 6, spot 7⟩ 2)
    tokenize source = .ok tokens ∧
      (run source).outcome = .ok (.block ⟨spot 1, spot 7⟩ [sum]) ∧
      sum.place.tokensInside tokens = tokens.tail ∧ ¬ Balanced (tokens.tail.map Token.kind) ∧
      sum.SpansOperands Span.join ∧ ∃ opening closing,
        CutsOff tokens (sum.place.tokensInside tokens) opening closing ∧
          (sum.isOperation = false → opening = [] ∧ closing = []) := by
  intro source spot tokens sum
  have read : tokenize source = .ok tokens := by decide +kernel
  have accepted : (run source).outcome = .ok (.block ⟨spot 1, spot 7⟩ [sum]) := by
    simp only [run, read]
    exact (parse_outcome _).trans (by cbv)
  have among : sum ∈ Node.nodes (.block ⟨spot 1, spot 7⟩ [sum]) := .tail _ (.head _)
  have noBlock : ¬ sum.IsBlock := by simp [sum, Node.IsBlock]
  exact ⟨read, accepted, by decide +kernel, by decide,
    run_spans_bracketed read accepted sum among noBlock⟩

end Sharp
