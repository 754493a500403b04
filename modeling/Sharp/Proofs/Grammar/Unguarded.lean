import Sharp.Proofs.Grammar.Transfer

/-!
What the guard can change. Without a limit no rule is refused, so its answers do not depend on the
depth. A program that is accepted under a limit is read alike without one as long as every return
that went without a value would go without it anyway: the guard may have refused the value there,
and that is the only refusal that leaves no error behind. Behind a block stands a closer, where the
statement that was tried in vain fails under any limit.
-/
namespace Sharp.Grammar

open Sharp.Grammar.Parser

variable {kinds : Kinds}

namespace Rule

/-- What a rule yields if nesting is not limited. -/
def unguarded (kinds : Kinds) : Answers := answer kinds none 0

theorem answerWithin_none (calls depth : Nat) (rule : Rule) (c : Cursor) :
    answerWithin kinds none calls depth rule c = answerWithin kinds none calls 0 rule c := by
  induction calls generalizing depth rule c with
  | zero => rfl
  | succ calls ih =>
    have same (depth : Nat) : answerWithin kinds none calls depth =
        answerWithin kinds none calls 0 := funext fun rule => funext fun c => ih depth rule c
    have admitted (depth : Nat) : rule.admitted none depth = true := by
      simp [Rule.admitted, Limit.allows]
    rw [answerWithin, answerWithin, admitted, admitted, same, same (rule.depthInside 0)]

theorem unguarded_eq (rule : Rule) (c : Cursor) :
    unguarded kinds rule c = (rule.parser kinds.size).eval kinds (unguarded kinds) c := by
  have same (depth : Nat) : answer kinds none depth = unguarded kinds :=
    funext fun rule => funext fun c => answerWithin_none _ depth rule c
  have admitted : rule.admitted none 0 = true := by simp [Rule.admitted, Limit.allows]
  rw [unguarded, answer_eq, if_pos admitted, same]
  rfl

theorem unguarded_moves (rule : Rule) (c : Cursor) : Moved kinds c (unguarded kinds rule c) :=
  answer_moves none 0 rule c

end Rule

/-- No value could be read behind any of the bare returns in a tree. -/
abbrev Settled (kinds : Kinds) (tree : Tree) : Prop :=
  ReturnsBefore (fun c => ∃ error, Rule.unguarded kinds .expression c = .error error) tree

/-- A success under a limit is one without a limit, unless a bare return stands where the guard
    refused a value. -/
theorem Rule.unguarded_of_answer {limit : Limit} {depth : Nat} {rule : Rule} {c : Cursor}
    {parsed : Parsed rule.Value} (succeeds : answer kinds limit depth rule c = .ok parsed)
    (settled : Settled kinds (rule.node parsed.value))
    (closes : rule.isOpen parsed.value → (kinds.kindAt parsed.cursor).closes = true) :
    unguarded kinds rule c = .ok parsed := by
  have free (depth : Nat) (rule : Rule) (c : Cursor) :
      answer kinds none depth rule c = unguarded kinds rule c := answerWithin_none _ depth rule c
  rw [← free depth]
  refine answer_transfers (fun _ _ => rfl) (fun _ _ _ => .inl rfl) (fun _ _ => rfl)
    (fun depth c fails => ?_) succeeds settled fun isOpen => ⟨closes isOpen, rfl⟩
  rwa [free depth]

end Sharp.Grammar
