import Sharp.Proofs.Grammar.Evaluation

/-!
Contracts of the rules. A contract says where a rule may be called, what its answer then obeys and
what may be noted. A description that meets a contract makes allowed calls only and never steps over
the end of the text, and its own outcome follows from what the contract promises of theirs.
-/
namespace Sharp.Grammar

structure Contract where
  allowed : Rule → Cursor → Prop
  promised : (rule : Rule) → Cursor → Outcome rule.Value → Prop
  noted : Event → Prop

namespace Parser

variable {α β σ : Type} {kinds : Kinds} {k : Contract}

/-- Under the contract, every step from the cursor on is in order and every outcome as wanted. -/
def Meets (kinds : Kinds) (k : Contract) : Parser α → Cursor → (Outcome α → Prop) → Prop
  | .done value, c, want => want (.ok ⟨value, c⟩)
  | .raise error, _, want => want (.error error)
  | .look next, c, want => (next c (kinds.kindAt c)).Meets kinds k c want
  | .advance next, c, want => kinds.kindAt c ≠ .eof ∧ next.Meets kinds k c.next want
  | .attempt rule next, c, want =>
    k.allowed rule c ∧
      (∀ parsed, k.promised rule c (.ok parsed) →
        (next (.ok parsed.value)).Meets kinds k parsed.cursor want) ∧
      ∀ error, k.promised rule c (.error error) → (next (.error error)).Meets kinds k c want
  | .note event next, c, want => k.noted event ∧ next.Meets kinds k c want

theorem eval_of_meets {answers : Answers} {p : Parser α} {c : Cursor} {want : Outcome α → Prop}
    (kept : ∀ rule c, k.allowed rule c → k.promised rule c (answers rule c))
    (meets : p.Meets kinds k c want) : want (p.eval kinds answers c) := by
  induction p generalizing c with
  | done => exact meets
  | raise => exact meets
  | look next ih => exact ih c (kinds.kindAt c) meets
  | advance next ih => exact ih meets.2
  | attempt rule next ih =>
    obtain ⟨may, success, failure⟩ := meets
    have promised := kept rule c may
    rw [eval]
    split
    · rename_i parsed answered
      exact ih _ (success parsed (answered ▸ promised))
    · rename_i error answered
      exact ih _ (failure error (answered ▸ promised))
  | note event next ih => exact ih meets.2

/-- Answers that agree where calls are allowed cannot be told apart. -/
theorem eval_congr_of_meets {answers others : Answers} {p : Parser α} {c : Cursor}
    {want : Outcome α → Prop}
    (kept : ∀ rule c, k.allowed rule c → k.promised rule c (answers rule c))
    (agree : ∀ rule c, k.allowed rule c → answers rule c = others rule c)
    (meets : p.Meets kinds k c want) : p.eval kinds answers c = p.eval kinds others c := by
  induction p generalizing c with
  | done => rfl
  | raise => rfl
  | look next ih => exact ih c (kinds.kindAt c) meets
  | advance next ih => exact ih meets.2
  | attempt rule next ih =>
    obtain ⟨may, success, failure⟩ := meets
    have promised := kept rule c may
    rw [eval, eval, ← agree rule c may]
    split
    · rename_i parsed answered
      exact ih _ (success parsed (answered ▸ promised))
    · rename_i error answered
      exact ih _ (failure error (answered ▸ promised))
  | note event next ih => exact ih meets.2

theorem Meets.mono {p : Parser α} {c : Cursor} {want wider : Outcome α → Prop}
    (meets : p.Meets kinds k c want) (weaker : ∀ outcome, want outcome → wider outcome) :
    p.Meets kinds k c wider := by
  induction p generalizing c with
  | done => exact weaker _ meets
  | raise => exact weaker _ meets
  | look next ih => exact ih c (kinds.kindAt c) meets
  | advance next ih => exact ⟨meets.1, ih meets.2⟩
  | attempt rule next ih =>
    exact ⟨meets.1, fun parsed promised => ih _ (meets.2.1 parsed promised),
      fun error promised => ih _ (meets.2.2 error promised)⟩
  | note event next ih => exact ⟨meets.1, ih meets.2⟩

/-- What is wanted of a first part so that the second one can go on. -/
def andThen (want : Outcome β → Prop) (goOn : α → Cursor → Prop) : Outcome α → Prop
  | .ok parsed => goOn parsed.value parsed.cursor
  | .error error => want (.error error)

@[simp] theorem andThen_ok (want : Outcome β → Prop) (goOn : α → Cursor → Prop)
    (parsed : Parsed α) : andThen want goOn (.ok parsed) = goOn parsed.value parsed.cursor := rfl

@[simp] theorem andThen_error (want : Outcome β → Prop) (goOn : α → Cursor → Prop)
    (error : SyntaxError) : andThen want goOn (.error error) = want (.error error) := rfl

theorem andThen_andThen {γ : Type} (want : Outcome γ → Prop) (skipped : β → Cursor → Prop)
    (goOn : α → Cursor → Prop) : andThen (andThen want skipped) goOn = andThen want goOn := by
  funext outcome
  cases outcome <;> rfl

theorem meets_bind (p : Parser α) (f : α → Parser β) (c : Cursor) (want : Outcome β → Prop) :
    (p.bind f).Meets kinds k c want ↔
      p.Meets kinds k c (andThen want fun value c => (f value).Meets kinds k c want) := by
  induction p generalizing c with
  | done => rfl
  | raise => rfl
  | look next ih => exact ih c (kinds.kindAt c) c
  | advance next ih => exact and_congr_right fun _ => ih c.next
  | attempt rule next ih =>
    simp only [bind, Meets]
    exact and_congr_right fun _ => and_congr
      (forall_congr' fun parsed => imp_congr_right fun _ => ih _ _)
      (forall_congr' fun error => imp_congr_right fun _ => ih _ _)
  | note event next ih => exact and_congr_right fun _ => ih c

theorem meets_mapError (p : Parser α) (g : SyntaxError → SyntaxError) (c : Cursor)
    (want : Outcome α → Prop) :
    (p.mapError g).Meets kinds k c want ↔
      p.Meets kinds k c fun outcome => want (outcome.mapError g) := by
  induction p generalizing c with
  | done => rfl
  | raise => rfl
  | look next ih => exact ih c (kinds.kindAt c) c
  | advance next ih => exact and_congr_right fun _ => ih c.next
  | attempt rule next ih =>
    simp only [mapError, Meets]
    exact and_congr_right fun _ => and_congr
      (forall_congr' fun parsed => imp_congr_right fun _ => ih _ _)
      (forall_congr' fun error => imp_congr_right fun _ => ih _ _)
  | note event next ih => exact and_congr_right fun _ => ih c

section Steps

variable {c start : Cursor}

theorem bind_eq (p : Parser α) (f : α → Parser β) : (p >>= f) = p.bind f := rfl

theorem pure_eq (value : α) : (pure value : Parser α) = .done value := rfl

theorem meets_ite (test : Prop) [Decidable test] (p q : Parser α) (want : Outcome α → Prop) :
    (if test then p else q).Meets kinds k c want ↔
      if test then p.Meets kinds k c want else q.Meets kinds k c want := by
  split <;> rfl

@[simp] theorem meets_done (value : α) (want : Outcome α → Prop) :
    (done value).Meets kinds k c want ↔ want (.ok ⟨value, c⟩) := Iff.rfl

@[simp] theorem meets_here (want : Outcome Cursor → Prop) :
    here.Meets kinds k c want ↔ want (.ok ⟨c, c⟩) := Iff.rfl

@[simp] theorem meets_peek (want : Outcome TokenKind → Prop) :
    peek.Meets kinds k c want ↔ want (.ok ⟨kinds.kindAt c, c⟩) := Iff.rfl

@[simp] theorem meets_step (want : Outcome Unit → Prop) :
    step.Meets kinds k c want ↔ kinds.kindAt c ≠ .eof ∧ want (.ok ⟨(), c.next⟩) := Iff.rfl

@[simp] theorem meets_fail (complaint : Complaint) (want : Outcome α → Prop) :
    (fail complaint).Meets kinds k c want ↔ want (.error ⟨complaint, c⟩) := Iff.rfl

@[simp] theorem meets_spanning (build : Extent → α) (want : Outcome α → Prop) :
    (spanning start build).Meets kinds k c want ↔ want (.ok ⟨build (.upTo start c), c⟩) := Iff.rfl

/-- An invariant of a loop: what holds before a turn holds after it, and suffices to stop. -/
theorem meets_iterate {turn : σ → Parser (Option σ)} {want : Outcome σ → Prop}
    (inv : σ → Cursor → Prop) (enough : ∀ state c, inv state c → want (.ok ⟨state, c⟩))
    (keeps : ∀ state c, inv state c → (turn state).Meets kinds k c (andThen want fun result d =>
      match result with
      | none => want (.ok ⟨state, d⟩)
      | some changed => inv changed d))
    (bound : Nat) (state : σ) (holds : inv state c) :
    (iterate turn bound state).Meets kinds k c want := by
  induction bound generalizing state c with
  | zero => exact enough state c holds
  | succ bound ih =>
    refine (meets_bind _ _ _ _).2 ((keeps state c holds).mono fun outcome wanted => ?_)
    rcases outcome with error | ⟨_ | changed, d⟩
    · exact wanted
    · exact wanted
    · exact ih changed wanted

end Steps

end Parser

end Sharp.Grammar
