import Sharp.Grammar.Run

/-!
Runs in which nothing was refused. What is noted stays noted, so a run that ends without a refusal
had none on the way. Every call in it was allowed, and a limit that allows as much changes nothing.
-/
namespace Sharp.Grammar

def Event.isRefusal : Event → Bool
  | .nestingLimit _ _ => true
  | .rolledBack _ _ => false

/-- No rule was refused so far. -/
def Session.Unhindered (s : Session) : Prop := ∀ event ∈ s.events, event.isRefusal = false

/-- Everything noted before is still noted. -/
def Session.Remembers (later earlier : Session) : Prop :=
  ∀ event ∈ earlier.events, event ∈ later.events

namespace Session

variable {s t u : Session}

theorem Remembers.trans (second : u.Remembers t) (first : t.Remembers s) : u.Remembers s :=
  fun event noted => second event (first event noted)

theorem remembers_note (s : Session) (event : Event) : (s.note event).Remembers s :=
  fun _ noted => Array.mem_push_of_mem event noted

theorem Unhindered.before (quiet : t.Unhindered) (remembers : t.Remembers s) : s.Unhindered :=
  fun event noted => quiet event (remembers event noted)

theorem not_unhindered_of_refusal (c : Cursor) (depth : Nat) :
    ¬ (s.note (.nestingLimit c depth)).Unhindered := by
  intro quiet
  have refused := quiet (.nestingLimit c depth) Array.mem_push_self
  simp [Event.isRefusal] at refused

end Session

namespace Parser

variable {α : Type} {runner other : Runner}

theorem exec_remembers (kinds : Kinds) (keeps : ∀ rule c s, (runner rule c s).2.Remembers s)
    (p : Parser α) (c : Cursor) (s : Session) : (p.exec kinds runner c s).2.Remembers s := by
  induction p generalizing c s with
  | done => exact fun _ noted => noted
  | raise => exact fun _ noted => noted
  | look next ih => exact ih c (kinds.kindAt c) c s
  | advance next ih => exact ih c.next s
  | attempt rule next ih =>
    have kept := keeps rule c s
    simp only [exec]
    split <;> rename_i answered <;> rw [answered] at kept
    · exact (ih _ _ _).trans kept
    · exact (ih _ _ _).trans kept
  | note event next ih => exact (ih c (s.note event)).trans (s.remembers_note event)

/-- Runners that agree as long as nothing is refused cannot be told apart by such a run. -/
theorem exec_of_unhindered (kinds : Kinds)
    (keeps : ∀ rule c s, (runner rule c s).2.Remembers s)
    (same : ∀ rule c s, (runner rule c s).2.Unhindered → other rule c s = runner rule c s)
    (p : Parser α) (c : Cursor) (s : Session) (quiet : (p.exec kinds runner c s).2.Unhindered) :
    p.exec kinds other c s = p.exec kinds runner c s := by
  induction p generalizing c s with
  | done => rfl
  | raise => rfl
  | look next ih => exact ih c (kinds.kindAt c) c s quiet
  | advance next ih => exact ih c.next s quiet
  | attempt rule next ih =>
    have unhindered : (runner rule c s).2.Unhindered := by
      refine quiet.before ?_
      simp only [exec]
      split <;> rename_i answered <;> rw [answered]
      · exact exec_remembers kinds keeps _ _ _
      · exact exec_remembers kinds keeps _ _ _
    simp only [exec] at quiet ⊢
    rw [same rule c s unhindered]
    split <;> rename_i answered <;> simp only [answered] at quiet
    · exact ih _ _ _ quiet
    · exact ih _ _ _ quiet
  | note event next ih => exact ih c (s.note event) quiet

end Parser

namespace Rule

variable {kinds : Kinds} {limit looser : Limit}

theorem run_remembers (calls : Nat) (rule : Rule) (c : Cursor) (s : Session) :
    (run kinds limit calls rule c s).2.Remembers s := by
  induction calls generalizing rule c s with
  | zero => exact s.remembers_note _
  | succ calls ih =>
    have body := Parser.exec_remembers kinds ih (rule.parser kinds.size) c
    rw [run]
    split
    · split
      · exact body s.enter
      · exact s.remembers_note _
    · exact body s

theorem run_of_unhindered (allows : ∀ depth, limit.allows depth = true → looser.allows depth = true)
    (calls : Nat) (rule : Rule) (c : Cursor) (s : Session)
    (quiet : (run kinds limit calls rule c s).2.Unhindered) :
    run kinds looser calls rule c s = run kinds limit calls rule c s := by
  induction calls generalizing rule c s with
  | zero => rfl
  | succ calls ih =>
    have body := Parser.exec_of_unhindered kinds (run_remembers calls) ih
      (rule.parser kinds.size) c
    rw [run] at quiet ⊢
    rw [run]
    cases guarded : rule.guarded with
    | false =>
      simp only [guarded, Bool.false_eq_true, if_false] at quiet ⊢
      exact body s quiet
    | true =>
      cases allowed : limit.allows (s.depth + 1) with
      | false =>
        simp only [guarded, allowed, Bool.false_eq_true, if_true, if_false] at quiet
        exact absurd quiet (Session.not_unhindered_of_refusal c _)
      | true =>
        simp only [guarded, allowed, allows _ allowed, if_true] at quiet ⊢
        rw [body s.enter quiet]

end Rule

/-- A program during which nothing is refused is read alike under every looser limit. -/
theorem parseKinds_of_unhindered {kinds : Kinds} {limit looser : Limit} {s : Session}
    (allows : ∀ depth, limit.allows depth = true → looser.allows depth = true)
    (quiet : (parseKinds kinds limit s).2.Unhindered) :
    parseKinds kinds looser s = parseKinds kinds limit s := by
  have same := Parser.exec_of_unhindered kinds
    (Rule.run_remembers (Rule.enoughCalls kinds)) (Rule.run_of_unhindered allows _)
    Parser.program .start s quiet
  rw [parseKinds, parseKinds, same]

theorem parseKinds_none_of_unhindered {kinds : Kinds} {limit : Limit} {s : Session}
    (quiet : (parseKinds kinds limit s).2.Unhindered) :
    parseKinds kinds none s = parseKinds kinds limit s :=
  parseKinds_of_unhindered (fun _ _ => rfl) quiet

end Sharp.Grammar
