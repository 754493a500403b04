import Mathlib.Data.List.Induction
import Sharp.Grammar.TokenStream
import Sharp.Proofs.Lexeme.Munch

/-!
True positions. A position belongs to a text if moving over the characters before it leads there.
All positions of tokens do, except where a separator ends: its end is one column on from its start,
also behind a line break. Tokens follow one another, and all but the final one take up room.
-/
namespace Sharp

variable {source : Source} {p : Position}

/-- A position of a text, with as many lines and columns as the characters before it make. -/
structure Position.Stands (source : Source) (p : Position) : Prop where
  ofSource : p.source = source
  inside : p.index ≤ source.text.toList.length
  reached : p = .atIndex source p.index
  line : p.line = (source.text.toList.take p.index).count '\n'
  column : p.column = ((source.text.toList.take p.index).reverse.takeWhile (· != '\n')).length

def Span.Stands (source : Source) (span : Span) : Prop :=
  span.start.Stands source ∧ span.stop.Stands source

/-- Only the end of a separator need not be a position of the text. -/
def Token.Stands (source : Source) (t : Token) : Prop :=
  t.span.start.Stands source ∧
    if t.kind = .newline then
      t.span.stop = t.span.start.oneRight ∧ t.span.stop.index ≤ source.text.toList.length
    else t.span.stop.Stands source

namespace Position

theorem past_line (p : Position) (cs : List Char) :
    (p.past cs).line = p.line + cs.count '\n' := by
  induction cs generalizing p with
  | nil => rfl
  | cons c cs ih =>
    rw [past_cons, ih, List.count_cons, after]
    split <;> rename_i lineBreak
    · simp only [lineBreak, BEq.rfl, if_true]
      omega
    · simp [lineBreak]

theorem start_past_index (source : Source) (cs : List Char) :
    ((start source).past cs).index = cs.length := by
  rw [past_index, start, Nat.zero_add]

/-- Columns are counted from the last line break on, if there is one. -/
theorem start_past_column (source : Source) (cs : List Char) :
    ((start source).past cs).column = (cs.reverse.takeWhile (· != '\n')).length := by
  induction cs using List.reverseRecOn with
  | nil => rfl
  | append_singleton cs c ih =>
    rw [past_append, past_cons, past_nil, List.reverse_append, after]
    split <;> rename_i lineBreak
    · simp [lineBreak]
    · simp [lineBreak, ih]

theorem stands_past {front : List Char} (within : front <+: source.text.toList) :
    ((start source).past front).Stands source := by
  have index := start_past_index source front
  have before : source.text.toList.take front.length = front :=
    (List.prefix_iff_eq_take.1 within).symm
  constructor
  · exact past_source _ front
  · exact index ▸ within.length_le
  · rw [index, atIndex, before]
  · rw [index, before, past_line, start, Nat.zero_add]
  · rw [index, before, start_past_column]

end Position

namespace Lexeme

theorem place_stands {lexemes : List Lexeme} (front : List Char)
    (covers : front ++ chained lexemes <+: source.text.toList)
    (short : ∀ t ∈ place ((Position.start source).past front) lexemes,
      t.span.stop.index ≤ source.text.toList.length) :
    ∀ t ∈ place ((Position.start source).past front) lexemes, t.Stands source := by
  induction lexemes generalizing front with
  | nil => simp [place]
  | cons l rest ih =>
    have starts : ((Position.start source).past front).Stands source :=
      Position.stands_past ((List.prefix_append _ _).trans covers)
    rw [chained, List.flatMap_cons, ← List.append_assoc] at covers
    have stops : ((Position.start source).past (front ++ l.chars)).Stands source :=
      Position.stands_past ((List.prefix_append _ _).trans covers)
    rw [place] at short ⊢
    rw [← Position.past_append] at short ⊢
    cases kind : l.kind with
    | none =>
      simp only [kind] at short
      exact ih (front ++ l.chars) covers short
    | some kind =>
      simp only [kind, List.forall_mem_cons] at short
      refine List.forall_mem_cons.2 ⟨⟨starts, ?_⟩, ih _ covers short.2⟩
      split <;> rename_i separator
      · exact ⟨if_pos separator, short.1⟩
      · rw [tokenEnd, if_neg separator, ← Position.past_append]
        exact stops

end Lexeme

open Lexeme

variable {tokens : List Token}

/-- Tokens that take up room, one behind the other, and a final one that takes none. -/
structure Lined (source : Source) (front : List Token) (final : Token) : Prop where
  finishes : final.kind = .eof
  empty : final.span.start.index = final.span.stop.index
  others : ∀ t ∈ front, t.kind ≠ .eof
  nonempty : ∀ t ∈ front, t.span.start.index < t.span.stop.index
  ordered : (front ++ [final]).Pairwise fun s t => s.span.stop.index ≤ t.span.start.index
  within : ∀ t ∈ front ++ [final], t.span.stop.index ≤ source.text.toList.length

theorem exists_lined (read : tokenize source = .ok tokens) :
    ∃ front final, tokens = front ++ [final] ∧ Lined source front final := by
  obtain ⟨pieces, same, others, tiles⟩ := maximalMunch_iff_tokenize.2 ⟨tokens, read, rfl⟩
  obtain ⟨front, back, rfl, rfl, ends⟩ := List.map_eq_append_iff.1 same
  obtain ⟨final, rfl, last⟩ := List.map_eq_singleton_iff.1 ends
  obtain ⟨kind, start, stop⟩ : final.kind = .eof ∧
      final.span.start.index = source.text.toList.length ∧
      final.span.stop.index = source.text.toList.length := by
    simpa [Token.piece] using last
  have within : ∀ t ∈ front, t.span.stop.index ≤ source.text.toList.length := fun t among =>
    tiles.within t.piece (List.mem_map_of_mem among)
  refine ⟨front, final, rfl, kind, start.trans stop.symm, ?_, ?_, ?_, ?_⟩
  · exact fun t among => others t.piece (List.mem_map_of_mem among)
  · exact fun t among => tiles.nonempty t.piece (List.mem_map_of_mem among)
  · refine List.pairwise_append.2
      ⟨List.pairwise_map.1 tiles.ordered, List.pairwise_singleton _ _, ?_⟩
    intro t among last isLast
    rw [List.mem_singleton.1 isLast, start]
    exact within t among
  · exact List.forall_mem_append.2 ⟨within, by simp [stop]⟩

theorem tokenize_stands (read : tokenize source = .ok tokens) : ∀ t ∈ tokens, t.Stands source := by
  obtain ⟨front, final, same, lined⟩ := exists_lined read
  have short := same ▸ lined.within
  have clean := clean_of_tokenize read
  rw [tokenize_of_clean clean] at read
  cases read
  have whole : ((Position.start source).past source.text.toList).Stands source :=
    Position.stands_past List.prefix_rfl
  rw [List.forall_mem_append] at short ⊢
  have ahead : [] ++ chained (split source.text.toList).lexemes <+: source.text.toList :=
    ⟨[], by rw [List.nil_append, List.append_nil, chained_split clean]⟩
  refine ⟨place_stands [] ahead short.1, ?_⟩
  simpa [Token.Stands, Token.finish, Span.empty] using whole

theorem exists_fault {d : Diagnostic} (fails : tokenize source = .error d) :
    ∃ fault, (split source.text.toList).fault = some fault ∧
      d = fault.diagnostic
        (Position.past (.start source) (chained (split source.text.toList).lexemes)) := by
  cases found : (split source.text.toList).fault with
  | none =>
    rw [tokenize_of_clean found] at fails
    cases fails
  | some fault =>
    rw [tokenize, found] at fails
    exact ⟨fault, rfl, (Except.error.inj fails).symm⟩

theorem tokenize_error_stands {d : Diagnostic} (fails : tokenize source = .error d) :
    d.span.Stands source := by
  obtain ⟨fault, found, rfl⟩ := exists_fault fails
  have covers := splitFrom_covered 0 source.text.toList
  rw [← split, Split.covered, List.drop_zero, found] at covers
  refine ⟨Position.stands_past ((List.prefix_append _ _).trans covers), ?_⟩
  rw [Fault.diagnostic, ← Position.past_append]
  exact Position.stands_past covers

end Sharp
