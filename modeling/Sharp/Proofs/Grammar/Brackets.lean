import Sharp.Proofs.Grammar.Derivation

/-!
Brackets in words of tokens. A word is walked through with the closing brackets that are still due;
it is balanced if none is due before it and none behind it. What the grammar derives leaves the
brackets due as they are. A stretch that begins or ends inside of brackets around it does not: it
takes closing brackets that others opened, or leaves some to others.
-/
namespace Sharp.Grammar

/-- The closing brackets that are due, the next one first. -/
abbrev Due := List Symbol

namespace Due

/-- A closing bracket has to be the next one that is due. -/
def close (sign : Symbol) : Due → Option Due
  | [] => none
  | next :: due => if next = sign then some due else none

def step (due : Due) : TokenKind → Option Due
  | .symbol .openRound => some (.closeRound :: due)
  | .symbol .openSquare => some (.closeSquare :: due)
  | .symbol .closeRound => due.close .closeRound
  | .symbol .closeSquare => due.close .closeSquare
  | _ => some due

/-- What is due behind a word; nothing if a closing bracket in it was not due. -/
def behind (due : Due) (word : List TokenKind) : Option Due := word.foldlM step due

variable {due : Due} {kind : TokenKind} {word front back : List TokenKind}

@[simp] theorem behind_nil : due.behind [] = some due := rfl

@[simp] theorem behind_cons :
    due.behind (kind :: word) = (due.step kind).bind (behind · word) := rfl

@[simp] theorem behind_append :
    due.behind (front ++ back) = (due.behind front).bind (behind · back) :=
  List.foldlM_append

@[simp] theorem close_next (sign : Symbol) (due : Due) : close sign (sign :: due) = some due :=
  if_pos rfl

end Due

/-- Brackets of both kinds match up within a word. -/
def Balanced (word : List TokenKind) : Prop := Due.behind [] word = some []

instance (word : List TokenKind) : Decidable (Balanced word) := inferInstanceAs (Decidable (_ = _))

/-- A word leaves the brackets due as they are, whichever those are. -/
def Neutral (word : List TokenKind) : Prop := ∀ due : Due, due.behind word = some due

def openRounds (n : Nat) : List TokenKind := List.replicate n (.symbol .openRound)

def closeRounds (n : Nat) : List TokenKind := List.replicate n (.symbol .closeRound)

/-- The word takes `lead` closing round brackets that are due, needs all of them, and leaves `trail`
    to what comes behind it. -/
structure Lacks (lead trail : Nat) (word : List TokenKind) : Prop where
  takes : ∀ due : Due, Due.behind (.replicate lead .closeRound ++ due) word =
    some (.replicate trail .closeRound ++ due)
  needs : ∀ fewer < lead, Due.behind (.replicate fewer .closeRound) word = none

namespace Due

variable {due : Due} {m n : Nat}

theorem behind_openRounds (due : Due) (n : Nat) :
    due.behind (openRounds n) = some (.replicate n .closeRound ++ due) := by
  induction n generalizing due with
  | zero => rfl
  | succ n ih =>
    have rest := ih (.closeRound :: due)
    rw [← List.singleton_append, ← List.append_assoc, ← List.replicate_succ'] at rest
    exact rest

theorem behind_closeRounds (due : Due) (n : Nat) :
    behind (.replicate n .closeRound ++ due) (closeRounds n) = some due := by
  induction n with
  | zero => rfl
  | succ n ih => exact ih

theorem behind_closeRounds_of_lt (short : m < n) :
    behind (.replicate m .closeRound) (closeRounds n) = none := by
  obtain ⟨more, rfl⟩ := Nat.exists_eq_add_of_lt short
  rw [closeRounds, Nat.add_assoc, List.replicate_add, behind_append, ← closeRounds,
    ← List.append_nil (List.replicate m Symbol.closeRound), behind_closeRounds]
  rfl

end Due

section Words

variable {word front back : List TokenKind} {lead trail : Nat}

theorem Neutral.lacks (neutral : Neutral word) : Lacks 0 0 word :=
  ⟨neutral, fun _ fewer => absurd fewer (Nat.not_lt_zero _)⟩

theorem Lacks.append (lacks : Lacks lead trail front) (neutral : Neutral back) :
    Lacks lead trail (front ++ back) := by
  constructor
  · intro due
    rw [Due.behind_append, lacks.takes, Option.bind_some, neutral]
  · intro fewer short
    rw [Due.behind_append, lacks.needs fewer short, Option.bind_none]

/-- Brackets that a word lacks can be put around it. -/
theorem Lacks.enclosed (lacks : Lacks lead trail word) :
    Neutral (openRounds lead ++ word ++ closeRounds trail) := by
  intro due
  simp [Due.behind_openRounds, lacks.takes, Due.behind_closeRounds]

theorem Lacks.balanced_iff (lacks : Lacks lead trail word) :
    Balanced word ↔ lead = 0 ∧ trail = 0 := by
  cases lead with
  | zero =>
    have whole := lacks.takes []
    simp only [List.replicate_zero, List.append_nil] at whole
    simp [Balanced, whole]
  | succ lead => simp [Balanced, show Due.behind [] word = none from lacks.needs 0 (Nat.succ_pos _)]

theorem neutral_cons {kind : TokenKind} (plain : ∀ due, Due.step due kind = some due)
    (neutral : Neutral word) : Neutral (kind :: word) := by
  intro due
  rw [Due.behind_cons, plain, Option.bind_some, neutral]

theorem neutral_of_forall (plain : ∀ kind ∈ word, ∀ due, Due.step due kind = some due) :
    Neutral word := by
  induction word with
  | nil => exact fun _ => rfl
  | cons kind word ih =>
    obtain ⟨first, rest⟩ := List.forall_mem_cons.1 plain
    exact neutral_cons first (ih rest)

theorem step_token (op : BinaryOp) (due : Due) : due.step op.token = some due := by
  cases op <;> rfl

/-- Two operands with the brackets around each of them, one operator in between: what is lacking in
    front of the first and behind the second, and all the brackets around those that face out. -/
theorem Lacks.operation {leadLeft trailLeft leadRight trailRight : Nat}
    (first : Lacks leadLeft trailLeft front) (second : Lacks leadRight trailRight back)
    (op : BinaryOp) (left right : Nat) :
    Lacks (leadLeft + left) (trailRight + right)
      (front ++ closeRounds (trailLeft + left) ++
        op.token :: (openRounds (leadRight + right) ++ back)) := by
  have middle (due : Due) :
      due.behind (op.token :: (openRounds (leadRight + right) ++ back)) =
        some (.replicate (trailRight + right) .closeRound ++ due) := by
    rw [Due.behind_cons, step_token, Option.bind_some, Due.behind_append, Due.behind_openRounds,
      Option.bind_some, List.replicate_add, List.append_assoc, second.takes, ← List.append_assoc,
      ← List.replicate_add]
  constructor
  · intro due
    rw [List.replicate_add, List.append_assoc, Due.behind_append, Due.behind_append, first.takes,
      Option.bind_some, ← List.append_assoc, ← List.replicate_add, Due.behind_closeRounds,
      Option.bind_some, middle]
  · intro fewer short
    rw [Due.behind_append, Due.behind_append]
    by_cases enough : leadLeft ≤ fewer
    · obtain ⟨within, rfl⟩ := Nat.exists_eq_add_of_le enough
      have stays : Due.behind (.replicate (trailLeft + within) .closeRound)
          (closeRounds (trailLeft + left)) = none := Due.behind_closeRounds_of_lt (by omega)
      rw [List.replicate_add, first.takes, Option.bind_some, ← List.replicate_add, stays]
      rfl
    · rw [first.needs fewer (Nat.lt_of_not_le enough)]
      rfl

end Words

theorem neutral_separators (n : Nat) : Neutral (separators n) :=
  neutral_of_forall fun _ among _ => List.eq_of_mem_replicate among ▸ rfl

theorem neutral_nameList (names : List (Ident Unit)) : Neutral (nameList names) := by
  refine neutral_of_forall fun kind among _ => ?_
  rcases mem_nameList among with ⟨_, rfl⟩ | rfl <;> rfl

/-- What the grammar derives has its brackets in pairs. -/
theorem Derives.neutral {word : List TokenKind} {phrase : Phrase} (derived : Derives word phrase) :
    Neutral word := by
  intro due
  induction derived generalizing due with
  | block _ ih => simp [neutral_separators _ _, ih]
  | anotherStatement _ _ front word => simp [neutral_separators _ _, front, word]
  | @sign op _ _ _ _ ih => cases op <;> simp [UnaryOp.token, Due.step, ih]
  | operation _ _ front word => simp [step_token, front, word]
  | function _ ih => simp [neutral_nameList _ _, Due.step, ih]
  | emptyCall _ ih => simp [Due.step, ih]
  | call _ _ front word => simp [Due.step, front, word]
  | bracketed _ ih => simp [Due.step, ih]
  | emptyList => rfl
  | list _ ih => simp [Due.step, ih]
  | _ => simp_all [Due.step]

end Sharp.Grammar
