import Sharp.Proofs.Grammar.Progress
import Sharp.Proofs.Grammar.Record

/-!
The calls of a record. The outcome of a description follows from the calls it made, and the record
of each of them is part of its own. Calls that were kept are made of what a tree consists of: they
follow one another or lie inside one another, so no rule is kept twice at one cursor.
-/
namespace Sharp.Grammar

open Sharp.Grammar.Parser

namespace Record

/-- The calls made by the reader itself, in turn. -/
def starts : Record → List (Rule × Cursor)
  | .nil => []
  | .noted _ rest => rest.starts
  | .called rule c _ _ rest => (rule, c) :: rest.starts

/-- The calls a tree is made of, each with what was recorded inside it: they succeeded, and so did
    all the calls they were made in. -/
def kept : Record → List (Rule × Cursor × Record)
  | .nil => []
  | .noted _ rest => rest.kept
  | .called _ _ true _ rest => rest.kept
  | .called rule c false inside rest => (rule, c, inside) :: (inside.kept ++ rest.kept)

variable {record inside first rest : Record} {rule : Rule} {c : Cursor}

@[simp] theorem starts_append (first rest : Record) :
    (first ++ rest).starts = first.starts ++ rest.starts := by
  induction first with
  | nil => rfl
  | noted event first ih => exact ih
  | called rule c failed inside first _ ih => exact congrArg ((rule, c) :: ·) ih

@[simp] theorem kept_append (first rest : Record) :
    (first ++ rest).kept = first.kept ++ rest.kept := by
  induction first with
  | nil => rfl
  | noted event first ih => exact ih
  | called rule c failed inside first _ ih =>
    cases failed with
    | true => exact ih
    | false => simp only [called_append, kept, ih, List.cons_append, List.append_assoc]

/-- What was noted inside a call that was kept was noted in one stretch. -/
theorem events_of_kept (among : (rule, c, inside) ∈ record.kept) :
    inside.events <:+: record.events := by
  induction record with
  | nil => cases among
  | noted event rest ih => exact (ih among).trans (List.suffix_cons event _).isInfix
  | called other d failed within rest inner outer =>
    have later : rest.events <:+: within.events ++ rest.events :=
      (List.suffix_append _ _).isInfix
    cases failed with
    | true => exact (outer among).trans later
    | false =>
      rcases List.mem_cons.1 among with same | deeper
      · cases same
        exact (List.prefix_append _ _).isInfix
      · rcases List.mem_append.1 deeper with deeper | further
        · exact (inner deeper).trans (List.prefix_append _ _).isInfix
        · exact (outer further).trans later

end Record

/-- The answers to the calls that were made. No other calls are answered. -/
def Recorder.made (recorder : Recorder) (starts : List (Rule × Cursor)) : Answers := fun rule c =>
  if (rule, c) ∈ starts then (recorder rule c).1 else .error ⟨.nestingTooDeep, c⟩

theorem Recorder.made_eq_ok {recorder : Recorder} {starts : List (Rule × Cursor)} {rule : Rule}
    {c : Cursor} {parsed : Parsed rule.Value} : recorder.made starts rule c = .ok parsed ↔
      (rule, c) ∈ starts ∧ (recorder rule c).1 = .ok parsed := by
  unfold made
  split <;> simp_all

@[simp] theorem Recorder.call_record (recorder : Recorder) (rule : Rule) (c : Cursor) :
    (recorder.call rule c).2 =
      .called rule c (!(recorder rule c).1.isOk) (recorder rule c).2 .nil := by
  rw [call]
  rcases recorder rule c with ⟨error | parsed, inside⟩ <;> rfl

theorem Recorder.kept_call {recorder : Recorder} {rule : Rule} {c : Cursor}
    {parsed : Parsed rule.Value} (succeeds : (recorder rule c).1 = .ok parsed) :
    (recorder.call rule c).2.kept =
      (rule, c, (recorder rule c).2) :: (recorder rule c).2.kept := by
  rw [call_record, succeeds]
  exact congrArg (_ :: ·) (List.append_nil _)

namespace Parser

variable {α β : Type} {kinds : Kinds} {recorder : Recorder} {answers : Answers} {p : Parser α}
  {c d : Cursor} {rule : Rule}

/-- An attempt goes on from where the call stopped, or where it began if the call fails. -/
theorem record_attempt (kinds : Kinds) (recorder : Recorder) (c : Cursor) (rule : Rule)
    (next : Except SyntaxError rule.Value → Parser α) :
    (∃ error, (recorder rule c).1 = .error error ∧ (attempt rule next).record kinds recorder c =
      (recorder.call rule c).2.before ((next (.error error)).record kinds recorder c)) ∨
    ∃ parsed, (recorder rule c).1 = .ok parsed ∧ (attempt rule next).record kinds recorder c =
      (recorder.call rule c).2.before
        ((next (.ok parsed.value)).record kinds recorder parsed.cursor) := by
  rw [record, Recorder.call]
  rcases recorder rule c with ⟨error | parsed, inside⟩
  · exact .inl ⟨error, rfl, rfl⟩
  · exact .inr ⟨parsed, rfl, rfl⟩

/-- The record of a call that was made is part of the record. -/
theorem record_split (made : (rule, d) ∈ (p.record kinds recorder c).2.starts) :
    ∃ front back, (p.record kinds recorder c).2 = front ++ ((recorder.call rule d).2 ++ back) := by
  induction p generalizing c with
  | done => cases made
  | raise => cases made
  | look next ih => exact ih c (kinds.kindAt c) made
  | advance next ih => exact ih made
  | attempt inner next ih =>
    have goes : ∃ result e, ((attempt inner next).record kinds recorder c).2 =
        (recorder.call inner c).2 ++ ((next result).record kinds recorder e).2 := by
      rcases record_attempt kinds recorder c inner next with ⟨_, _, whole⟩ | ⟨_, _, whole⟩ <;>
        exact ⟨_, _, congrArg Prod.snd whole⟩
    obtain ⟨result, e, whole⟩ := goes
    rw [whole, Record.starts_append, Recorder.call_record] at made
    rcases List.mem_cons.1 made with same | later
    · cases same
      exact ⟨.nil, _, whole⟩
    · obtain ⟨front, back, split⟩ := ih result later
      exact ⟨(recorder.call inner c).2 ++ front, back, by rw [whole, split, Record.append_assoc]⟩
  | note event next ih =>
    obtain ⟨front, back, whole⟩ := ih made
    exact ⟨.noted event front, back, congrArg (Record.noted event) whole⟩

/-- Answers to the calls that were made give the outcome that was recorded. -/
theorem eval_of_starts (same : ∀ rule d, (rule, d) ∈ (p.record kinds recorder c).2.starts →
      answers rule d = (recorder rule d).1) :
    p.eval kinds answers c = (p.record kinds recorder c).1 := by
  induction p generalizing c with
  | done => rfl
  | raise => rfl
  | look next ih => exact ih c (kinds.kindAt c) same
  | advance next ih => exact ih same
  | attempt inner next ih =>
    rcases record_attempt kinds recorder c inner next with
        ⟨error, fails, whole⟩ | ⟨parsed, succeeds, whole⟩ <;>
      rw [whole, Record.before] at same ⊢ <;>
      rw [Record.starts_append, Recorder.call_record] at same
    · rw [eval, same inner c List.mem_cons_self, fails]
      exact ih _ fun rule d later => same rule d (List.mem_cons_of_mem _ later)
    · rw [eval, same inner c List.mem_cons_self, succeeds]
      exact ih _ fun rule d later => same rule d (List.mem_cons_of_mem _ later)
  | note event next ih => exact ih same

/-- Only such calls were made as the contract allows. -/
theorem allowed_of_starts {k : Contract} {want : Outcome α → Prop}
    (kept : ∀ rule c, k.allowed rule c → k.promised rule c (recorder rule c).1)
    (meets : p.Meets kinds k c want)
    (made : (rule, d) ∈ (p.record kinds recorder c).2.starts) : k.allowed rule d := by
  induction p generalizing c with
  | done => cases made
  | raise => cases made
  | look next ih => exact ih c (kinds.kindAt c) meets made
  | advance next ih => exact ih meets.2 made
  | attempt inner next ih =>
    obtain ⟨may, success, failure⟩ := meets
    have promised := kept inner c may
    rcases record_attempt kinds recorder c inner next with
        ⟨error, fails, whole⟩ | ⟨parsed, succeeds, whole⟩ <;>
      rw [whole, Record.before, Record.starts_append, Recorder.call_record] at made <;>
      rcases List.mem_cons.1 made with same | later
    · cases same
      exact may
    · exact ih _ (failure error (fails ▸ promised)) later
    · cases same
      exact may
    · exact ih _ (success parsed (succeeds ▸ promised)) later
  | note event next ih => exact ih meets.2 made

theorem mem_starts_read (f : rule.Value → Parser β) :
    (rule, c) ∈ ((read rule >>= f).record kinds recorder c).2.starts := by
  rw [read, bind_eq, bind]
  rcases record_attempt kinds recorder c rule _ with ⟨_, _, whole⟩ | ⟨_, _, whole⟩ <;>
    rw [whole, Record.before, Record.starts_append, Recorder.call_record] <;>
    exact List.mem_cons_self

/-- What a call that was made kept is kept, and the call itself if it succeeded. -/
theorem kept_of_starts {parsed : Parsed rule.Value}
    (made : (rule, d) ∈ (p.record kinds recorder c).2.starts)
    (succeeds : (recorder rule d).1 = .ok parsed) :
    (rule, d, (recorder rule d).2) :: (recorder rule d).2.kept ⊆
      (p.record kinds recorder c).2.kept := by
  obtain ⟨front, back, whole⟩ := record_split made
  rw [whole, Record.kept_append, Record.kept_append, Recorder.kept_call succeeds]
  exact fun kept among => List.mem_append_right _ (List.mem_append_left _ among)

end Parser

namespace Rule

variable {kinds : Kinds} {limit : Limit} {calls depth : Nat} {rule : Rule} {c : Cursor}

theorem record_outcome (kinds : Kinds) (limit : Limit) (calls depth : Nat) (rule : Rule)
    (c : Cursor) :
    (record kinds limit calls depth rule c).1 = answerWithin kinds limit calls depth rule c := by
  induction calls generalizing depth rule c with
  | zero => rfl
  | succ calls ih =>
    rw [record, answerWithin]
    split
    · exact (eval_of_starts fun inner d _ => (ih _ inner d).symm).symm
    · rfl

/-- A rule that succeeds was admitted. -/
theorem record_of_ok {parsed : Parsed rule.Value}
    (succeeds : (record kinds limit (calls + 1) depth rule c).1 = .ok parsed) :
    record kinds limit (calls + 1) depth rule c = (rule.parser kinds.size).record kinds
      (record kinds limit calls (rule.depthInside depth)) c := by
  rw [record] at succeeds ⊢
  split at succeeds <;> rename_i admitted
  · exact if_pos admitted
  · cases succeeds

end Rule

/-! ### No rule is kept twice at one cursor -/

/-- Calls from one cursor on and before another, none of them twice and each lighter than `most`. -/
structure Spread (kinds : Kinds) (most : Nat) (entries : List (Rule × Cursor × Record))
    (c d : Cursor) : Prop where
  inOrder : c.index ≤ d.index
  within : ∀ entry ∈ entries, c.index ≤ entry.2.1.index ∧ entry.2.1.index < d.index
  lighter : ∀ entry ∈ entries, entry.1.weight kinds entry.2.1 < most
  distinct : (entries.map fun entry => (entry.1, entry.2.1)).Nodup

namespace Spread

variable {kinds : Kinds} {most : Nat} {entries first later : List (Rule × Cursor × Record)}
  {c d e : Cursor} {rule : Rule} {inside : Record}

theorem nil (inOrder : c.index ≤ d.index) : Spread kinds most [] c d :=
  ⟨inOrder, nofun, nofun, List.nodup_nil⟩

theorem before (spread : Spread kinds most entries d e) (inOrder : c.index ≤ d.index) :
    Spread kinds most entries c e where
  inOrder := Nat.le_trans inOrder spread.inOrder
  within entry among := ⟨Nat.le_trans inOrder (spread.within entry among).1,
    (spread.within entry among).2⟩
  lighter := spread.lighter
  distinct := spread.distinct

theorem append (front : Spread kinds most first c d) (back : Spread kinds most later d e) :
    Spread kinds most (first ++ later) c e where
  inOrder := Nat.le_trans front.inOrder back.inOrder
  within := List.forall_mem_append.2
    ⟨fun entry among => ⟨(front.within entry among).1,
        Nat.lt_of_lt_of_le (front.within entry among).2 back.inOrder⟩,
      (back.before front.inOrder).within⟩
  lighter := List.forall_mem_append.2 ⟨front.lighter, back.lighter⟩
  distinct := by
    rw [List.map_append]
    refine List.nodup_append.2 ⟨front.distinct, back.distinct, fun key one twin other same => ?_⟩
    obtain ⟨entry, among, rfl⟩ := List.mem_map.1 one
    obtain ⟨further, also, rfl⟩ := List.mem_map.1 other
    have below := (front.within entry among).2
    have above := (back.within further also).1
    rw [(Prod.mk.inj same).2] at below
    exact Nat.not_lt_of_le above below

/-- A call is heavier than all that were made in it, so it is none of them. -/
theorem call (spread : Spread kinds (rule.weight kinds c) entries c d) (moved : c.index < d.index)
    (light : rule.weight kinds c < most) :
    Spread kinds most ((rule, c, inside) :: entries) c d where
  inOrder := spread.inOrder
  within := List.forall_mem_cons.2 ⟨⟨Nat.le_refl _, moved⟩, spread.within⟩
  lighter := List.forall_mem_cons.2
    ⟨light, fun entry among => Nat.lt_trans (spread.lighter entry among) light⟩
  distinct := by
    refine List.nodup_cons.2 ⟨fun among => ?_, spread.distinct⟩
    obtain ⟨entry, among, same⟩ := List.mem_map.1 among
    obtain ⟨sameRule, sameCursor⟩ := Prod.mk.inj same
    have lighter := spread.lighter entry among
    rw [sameRule, sameCursor] at lighter
    exact Nat.lt_irrefl _ lighter

end Spread

section Spread

variable {α : Type} {kinds : Kinds} {limit : Limit} {calls depth most : Nat}
  {recorder : Recorder}

theorem Parser.record_spread (spread : ∀ rule c parsed, (recorder rule c).1 = .ok parsed →
      c.index < parsed.cursor.index ∧
        Spread kinds (rule.weight kinds c) (recorder rule c).2.kept c parsed.cursor)
    {p : Parser α} {c : Cursor} {parsed : Parsed α}
    (light : ∀ rule d, (rule, d) ∈ (p.record kinds recorder c).2.starts →
      rule.weight kinds d < most)
    (succeeds : (p.record kinds recorder c).1 = .ok parsed) :
    Spread kinds most (p.record kinds recorder c).2.kept c parsed.cursor := by
  induction p generalizing c with
  | done =>
    cases succeeds
    exact .nil (Nat.le_refl _)
  | raise => cases succeeds
  | look next ih => exact ih c (kinds.kindAt c) light succeeds
  | advance next ih => exact (ih light succeeds).before (Nat.le_succ _)
  | attempt inner next ih =>
    rcases record_attempt kinds recorder c inner next with
        ⟨error, fails, whole⟩ | ⟨found, answered, whole⟩ <;>
      rw [whole, Record.before] at light succeeds ⊢ <;>
      rw [Record.starts_append, Recorder.call_record] at light <;>
      rw [Record.kept_append]
    · have none : (recorder.call inner c).2.kept = [] := by
        rw [Recorder.call_record, fails]
        rfl
      rw [none]
      exact ih _ (fun rule d later => light rule d (List.mem_cons_of_mem _ later)) succeeds
    · obtain ⟨moved, inside⟩ := spread inner c found answered
      rw [Recorder.kept_call answered]
      exact (inside.call moved (light inner c List.mem_cons_self)).append
        (ih _ (fun rule d later => light rule d (List.mem_cons_of_mem _ later)) succeeds)
  | note event next ih => exact ih light succeeds

theorem Rule.record_spread {rule : Rule} {c : Cursor} {parsed : Parsed rule.Value}
    (succeeds : (record kinds limit calls depth rule c).1 = .ok parsed) :
    c.index < parsed.cursor.index ∧ Spread kinds (rule.weight kinds c)
      (record kinds limit calls depth rule c).2.kept c parsed.cursor := by
  induction calls generalizing depth rule c with
  | zero => cases succeeds
  | succ calls ih =>
    have moved : Moved kinds c (record kinds limit (calls + 1) depth rule c).1 :=
      record_outcome kinds limit _ depth rule c ▸ answerWithin_moves limit _ depth rule c
    rw [succeeds] at moved
    have opens := record_of_ok succeeds
    rw [opens] at succeeds ⊢
    refine ⟨moved.index_lt, Parser.record_spread (fun inner d found => ih) (fun inner d made => ?_)
      succeeds⟩
    refine weight_lt_of_allowed (Parser.allowed_of_starts (fun other e _ => ⟨?_, trivial⟩)
      (parser_moves (fun _ _ _ => True) rule kinds.size c) made)
    rw [record_outcome]
    exact answerWithin_moves limit calls _ other e

/-- No rule is kept twice at one cursor. -/
theorem recordKinds_kept {parsed : Parsed Tree}
    (succeeds : (recordKinds kinds limit).1 = .ok parsed) :
    ((recordKinds kinds limit).2.kept.map fun entry => (entry.1, entry.2.1)).Nodup := by
  have light (rule : Rule) (d : Cursor) (_ : (rule, d) ∈ (recordKinds kinds limit).2.starts) :
      rule.weight kinds d < Rule.enoughCalls kinds := Rule.weight_lt_enoughCalls kinds rule d
  exact (Parser.record_spread (fun _ _ _ => Rule.record_spread) light succeeds).distinct

end Spread

end Sharp.Grammar
