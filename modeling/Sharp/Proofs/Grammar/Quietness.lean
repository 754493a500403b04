import Sharp.Proofs.Grammar.Calls
import Sharp.Proofs.Grammar.Unguarded
import Sharp.Proofs.Grammar.Unhindered

/-!
Records without refusals. What a description yields follows from the calls it made, and where none
of them met a refusal each yields the same with any room to spare. So what was carried out smoothly
somewhere comes out alike without a limit and in every run that has more calls to go and is no
deeper.
-/
namespace Sharp.Grammar

open Sharp.Grammar.Parser

namespace Record

/-- Nothing was refused. -/
def Quiet (record : Record) : Prop := ∀ event ∈ record.events, event.isRefusal = false

variable {record inside first rest : Record} {rule : Rule} {c : Cursor} {failed : Bool}

theorem quiet_append : (first ++ rest).Quiet ↔ first.Quiet ∧ rest.Quiet := by
  simp only [Quiet, events_append, List.mem_append, or_imp, forall_and]

theorem quiet_called : (called rule c failed inside .nil).Quiet ↔ inside.Quiet := by
  simp only [Quiet, events, List.append_nil]

theorem not_quiet_refusal (depth : Nat) (c : Cursor) : ¬ (refusal depth c).Quiet := fun quiet =>
  Bool.noConfusion (quiet _ List.mem_cons_self)

end Record

/-- Where nothing is refused the answers are these. -/
def Recorder.Agrees (recorder : Recorder) (answers : Answers) : Prop :=
  ∀ rule c, (recorder rule c).2.Quiet → (recorder rule c).1 = answers rule c

namespace Parser

variable {α β : Type} {kinds : Kinds} {recorder : Recorder} {answers : Answers} {p : Parser α}
  {c d : Cursor} {rule : Rule}

theorem quiet_of_starts (made : (rule, d) ∈ (p.record kinds recorder c).2.starts)
    (quiet : (p.record kinds recorder c).2.Quiet) : (recorder rule d).2.Quiet := by
  obtain ⟨front, back, whole⟩ := record_split made
  rw [whole, Record.quiet_append, Record.quiet_append, Recorder.call_record,
    Record.quiet_called] at quiet
  exact quiet.2.1

theorem quiet_read : ((read rule).record kinds recorder c).2.Quiet ↔ (recorder rule c).2.Quiet := by
  rw [read, record, Recorder.call]
  rcases recorder rule c with ⟨error | parsed, inside⟩ <;> exact Record.quiet_called

theorem quiet_bind {f : α → Parser β} (quiet : ((p >>= f).record kinds recorder c).2.Quiet) :
    (p.record kinds recorder c).2.Quiet ∧
      ∀ parsed, (p.record kinds recorder c).1 = .ok parsed →
        ((f parsed.value).record kinds recorder parsed.cursor).2.Quiet := by
  rw [record_bind] at quiet
  revert quiet
  rcases p.record kinds recorder c with ⟨error | parsed, front⟩ <;> intro quiet
  · exact ⟨quiet, nofun⟩
  · obtain ⟨before, after⟩ := Record.quiet_append.1 quiet
    refine ⟨before, fun found same => ?_⟩
    cases same
    exact after

theorem eval_of_quiet (agrees : recorder.Agrees answers)
    (quiet : (p.record kinds recorder c).2.Quiet) :
    p.eval kinds answers c = (p.record kinds recorder c).1 :=
  eval_of_starts fun rule d made => (agrees rule d (quiet_of_starts made quiet)).symm

end Parser

namespace Rule

variable {kinds : Kinds} {limit looser : Limit} {calls more depth less : Nat} {rule : Rule}
  {c : Cursor}

/-- A rule in which nothing was refused was admitted. -/
theorem quiet_of_quiet (quiet : (record kinds limit (calls + 1) depth rule c).2.Quiet) :
    rule.admitted limit depth = true ∧ ((rule.parser kinds.size).record kinds
      (record kinds limit calls (rule.depthInside depth)) c).2.Quiet := by
  rw [record] at quiet
  split at quiet
  · exact ⟨‹_›, quiet⟩
  · exact absurd quiet (Record.not_quiet_refusal depth c)

/-- Where nothing is refused a rule yields what it yields with more room. -/
theorem record_agrees (fewer : calls ≤ more)
    (allows : ∀ k, limit.allows (depth + k) = true → looser.allows (less + k) = true) :
    (record kinds limit calls depth).Agrees (answerWithin kinds looser more less) := by
  intro rule c quiet
  induction calls generalizing more depth less rule c with
  | zero => exact absurd quiet (Record.not_quiet_refusal depth c)
  | succ calls ih =>
    obtain ⟨more, rfl⟩ := Nat.exists_eq_add_of_lt fewer
    obtain ⟨admitted, inner⟩ := quiet_of_quiet quiet
    have also : rule.admitted looser less = true := by
      rw [Rule.admitted, Bool.or_eq_true] at admitted ⊢
      exact admitted.imp_right (allows 1)
    have inside (k : Nat) (allowed : limit.allows (rule.depthInside depth + k) = true) :
        looser.allows (rule.depthInside less + k) = true := by
      unfold depthInside at allowed ⊢
      split at allowed <;> simp_all [Nat.add_assoc]
    rw [record, if_pos admitted, answerWithin, if_pos also]
    exact (eval_of_quiet (fun other d => ih (by omega) inside other d) inner).symm

end Rule

/-! ### Smooth runs -/

/-- Somewhere it was carried out without a refusal, with no more calls to go and no less deep. -/
def Smooth {α : Type} (kinds : Kinds) (limit : Limit) (calls depth : Nat) (p : Parser α)
    (c : Cursor) : Prop :=
  ∃ fewer deeper, fewer ≤ calls ∧ depth ≤ deeper ∧
    (p.record kinds (Rule.record kinds limit fewer deeper) c).2.Quiet

namespace Smooth

variable {α β : Type} {kinds : Kinds} {limit : Limit} {calls more depth less : Nat} {p : Parser α}
  {c m b e : Cursor} {rule : Rule}

theorem mono (smooth : Smooth kinds limit calls depth p c) (fewer : calls ≤ more)
    (deeper : less ≤ depth) : Smooth kinds limit more less p c := by
  obtain ⟨room, deep, below, above, quiet⟩ := smooth
  exact ⟨room, deep, Nat.le_trans below fewer, Nat.le_trans deeper above, quiet⟩

theorem of_here {f : Cursor → Parser β} (smooth : Smooth kinds limit calls depth (here >>= f) c) :
    Smooth kinds limit calls depth (f c) c :=
  smooth

theorem of_peek {f : TokenKind → Parser β}
    (smooth : Smooth kinds limit calls depth (peek >>= f) c) :
    Smooth kinds limit calls depth (f (kinds.kindAt c)) c :=
  smooth

theorem of_step {f : Unit → Parser β} (smooth : Smooth kinds limit calls depth (step >>= f) c) :
    Smooth kinds limit calls depth (f ()) c.next :=
  smooth

theorem of_expecting {classes : List TokenClass}
    (smooth : Smooth kinds limit calls depth (expecting classes p) c) :
    Smooth kinds limit calls depth p c := by
  obtain ⟨room, deep, below, above, quiet⟩ := smooth
  rw [expecting, record, record_mapError] at quiet
  exact ⟨room, deep, below, above, quiet⟩

theorem of_bind {f : α → Parser β} (smooth : Smooth kinds limit calls depth (p >>= f) c) :
    Smooth kinds limit calls depth p c := by
  obtain ⟨room, deep, below, above, quiet⟩ := smooth
  exact ⟨room, deep, below, above, (quiet_bind quiet).1⟩

/-- What was called was carried out with one call less to go. -/
theorem of_read (smooth : Smooth kinds limit (calls + 1) depth (read rule) c) :
    Smooth kinds limit calls depth (rule.parser kinds.size) c := by
  obtain ⟨room, deep, below, above, quiet⟩ := smooth
  rw [← bind_pure (read rule)] at quiet
  have called := quiet_of_starts (mem_starts_read pure) quiet
  cases room with
  | zero => exact absurd called (Record.not_quiet_refusal deep c)
  | succ room =>
    refine ⟨room, rule.depthInside deep, Nat.le_of_succ_le_succ below, Nat.le_trans above ?_,
      (Rule.quiet_of_quiet called).2⟩
    unfold Rule.depthInside
    split <;> omega

theorem called (smooth : Smooth kinds limit calls depth (read rule) c) :
    Smooth kinds limit calls depth (rule.parser kinds.size) c :=
  of_read (smooth.mono (Nat.le_succ calls) (Nat.le_refl depth))

section Outcomes

variable (enough : calls ≤ Rule.enoughCalls kinds)

include enough

/-- It comes out alike without a limit, and wherever there is more room. -/
theorem eval_eq (smooth : Smooth kinds limit calls depth p c) :
    p.eval kinds (Rule.unguarded kinds) c =
      p.eval kinds (Rule.answerWithin kinds limit calls depth) c := by
  obtain ⟨room, deep, below, above, quiet⟩ := smooth
  have free : (Rule.record kinds limit room deep).Agrees (Rule.unguarded kinds) :=
    Rule.record_agrees (Nat.le_trans below enough) fun _ _ => rfl
  have bound : (Rule.record kinds limit room deep).Agrees
      (Rule.answerWithin kinds limit calls depth) := by
    refine Rule.record_agrees below fun k allowed => ?_
    cases limit with
    | none => rfl
    | some most =>
      simp only [Limit.allows, Option.all_some, decide_eq_true_eq] at allowed ⊢
      omega
  rw [eval_of_quiet free quiet, eval_of_quiet bound quiet]

theorem of_bind_ok {f : α → Parser β} {x : α}
    (smooth : Smooth kinds limit calls depth (p >>= f) c)
    (succeeds : p.eval kinds (Rule.unguarded kinds) c = .ok ⟨x, b⟩) :
    Smooth kinds limit calls depth (f x) b := by
  obtain ⟨room, deep, below, above, quiet⟩ := smooth
  obtain ⟨before, after⟩ := quiet_bind quiet
  have free : (Rule.record kinds limit room deep).Agrees (Rule.unguarded kinds) :=
    Rule.record_agrees (Nat.le_trans below enough) fun _ _ => rfl
  exact ⟨room, deep, below, above, after ⟨x, b⟩ ((eval_of_quiet free before).symm.trans succeeds)⟩

/-- A chain goes on behind its first operand as the same operators do elsewhere. -/
theorem chained {level : Level} {operand : Parser Tree} {x : Tree} {rest : List (BinaryOp × Tree)}
    (operands : Answers → Cursor → Outcome Tree)
    (reads : ∀ answers, operand.eval kinds answers = operands answers)
    (moves : ∀ answers, (∀ rule c, Moved kinds c (answers rule c)) →
      ∀ c x d, operands answers c = .ok ⟨x, d⟩ → c.index < d.index)
    (smooth : Smooth kinds limit calls depth (chain kinds.size level operand operand) c)
    (first : operands (Rule.unguarded kinds) c = .ok ⟨x, b⟩)
    (series : Series (nextOperand kinds level
      (operands (Rule.answerWithin kinds limit calls depth))) b rest e) :
    ∃ y, Chained kinds level (operands (Rule.unguarded kinds)) (operands (Rule.unguarded kinds))
      c y e := by
  have bounded := moves _ (Rule.answerWithin_moves limit calls depth)
  have free := moves _ Rule.unguarded_moves
  simp only [← reads] at first series bounded free ⊢
  -- What is left to do behind the first operand is a chain that begins with it.
  have taken : (chain kinds.size level (.done x) operand).eval kinds
      (Rule.answerWithin kinds limit calls depth) b = .ok ⟨rest.foldl attach x, e⟩ :=
    (chain_eq_ok bounded).2 ⟨x, b, rest, rfl, series, rfl⟩
  have left := (eval_eq enough (of_bind_ok enough smooth first)).trans taken
  exact ⟨_, (chain_eq_ok free).1 ((eval_bind_eq_ok _ _).2 ⟨x, b, first, left⟩)⟩

end Outcomes

end Smooth

end Sharp.Grammar
