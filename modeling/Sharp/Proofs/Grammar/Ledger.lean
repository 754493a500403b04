import Sharp.Proofs.Grammar.Following
import Sharp.Proofs.Grammar.Record
import Mathlib.Algebra.Order.BigOperators.Group.Finset

/-!
Accounts of what is tried in vain. A statement that is taken back begins behind a separator, and
what is noted while something is read concerns tokens further on. So a place is met again only if
somebody goes back and reads the same tokens once more, which is done behind a return whose value is
given up, if the first token of the value serves for something else: the brackets of a call or an
operator. Every such place in front doubles how often what lies behind it may be met, unless what
happened at the place is taken out of the record.
-/
namespace Sharp.Grammar

/-- Where the statement began that is taken back. -/
def Event.start? : Event → Option Cursor
  | .rolledBack start _ => some start
  | .nestingLimit _ _ => none

def retracted (events : List Event) : List Cursor := events.filterMap Event.start?

theorem retracted_append (front back : List Event) :
    retracted (front ++ back) = retracted front ++ retracted back :=
  List.filterMap_append

/-- An expression begins so, and an expression that is already there may go on so. -/
def resumes (kind : TokenKind) : Bool := Parser.isSymbol kind .openRound || isSign kind

namespace Record

/-- Whether a call at a cursor is one of a return that tried its value in vain, and the first token
    of the value may serve for something else. -/
def vain (kinds : Kinds) (rule : Rule) (c : Cursor) : Record → Bool
  | .called .expression d true _ .nil =>
    decide (rule = .statement) && (kinds.kindAt c).isKeyword .return && decide (d = c.next) &&
      resumes (kinds.kindAt d)
  | _ => false

/-- The places of all values that were tried in vain, in the order in which the returns that tried
    them were read. -/
def attempts (kinds : Kinds) : Record → List Cursor
  | .nil => []
  | .noted _ rest => rest.attempts kinds
  | .called rule c _ inside rest =>
    (if inside.vain kinds rule c then [c.next] else []) ++ inside.attempts kinds ++
      rest.attempts kinds

/-- What is left of a record without what happened while values at some places were tried in
    vain. -/
def prune (kinds : Kinds) (out : Cursor → Bool) : Record → Record
  | .nil => .nil
  | .noted event rest => .noted event (rest.prune kinds out)
  | .called rule c failed inside rest =>
    .called rule c failed
      (if inside.vain kinds rule c && out c.next then .nil else inside.prune kinds out)
      (rest.prune kinds out)

variable {kinds : Kinds} {out : Cursor → Bool} {rule : Rule} {c : Cursor} {record inside : Record}

theorem vain_eq_true : inside.vain kinds rule c = true ↔
    rule = .statement ∧ kinds.kindAt c = .keyword .return ∧
      resumes (kinds.kindAt c.next) = true ∧
      ∃ tried, inside = .called .expression c.next true tried .nil := by
  constructor
  · intro isVain
    unfold vain at isVain
    split at isVain
    · simp only [Bool.and_eq_true, decide_eq_true_eq, TokenKind.isKeyword] at isVain
      obtain ⟨⟨⟨same, found⟩, rfl⟩, resumes⟩ := isVain
      exact ⟨same, found, resumes, _, rfl⟩
    · cases isVain
  · rintro ⟨rfl, found, resumes, tried, rfl⟩
    simp [vain, found, resumes, TokenKind.isKeyword]

@[simp] theorem vain_nil : Record.nil.vain kinds rule c = false := rfl

theorem vain_prune : (inside.prune kinds out).vain kinds rule c = inside.vain kinds rule c := by
  rw [Bool.eq_iff_iff, vain_eq_true, vain_eq_true]
  refine and_congr_right fun _ => and_congr_right fun _ => and_congr_right fun _ => ?_
  constructor
  · rintro ⟨tried, same⟩
    cases inside with
    | nil => cases same
    | noted event rest => cases same
    | called inner d failed inside rest =>
      cases rest with
      | nil =>
        simp only [prune, called.injEq, and_true] at same
        obtain ⟨rfl, rfl, rfl, _⟩ := same
        exact ⟨inside, rfl⟩
      | noted event rest => simp [prune] at same
      | called inner d failed inside rest => simp [prune] at same
  · rintro ⟨tried, rfl⟩
    exact ⟨_, by simp [prune]; rfl⟩

@[simp] theorem prune_append (first rest : Record) :
    (first ++ rest).prune kinds out = first.prune kinds out ++ rest.prune kinds out := by
  induction first with
  | nil => rfl
  | noted event first ih => exact congrArg (noted event) ih
  | called rule c failed inside first _ ih => exact congrArg (called rule c failed _) ih

theorem prune_none (record : Record) : record.prune kinds (fun _ => false) = record := by
  induction record with
  | nil => rfl
  | noted event rest ih => exact congrArg (noted event) ih
  | called rule c failed inside rest inner ih => simp [prune, inner, ih]

@[simp] theorem attempts_append (first rest : Record) :
    (first ++ rest).attempts kinds = first.attempts kinds ++ rest.attempts kinds := by
  induction first with
  | nil => rfl
  | noted event first ih => exact ih
  | called rule c failed inside first _ ih =>
    simp only [called_append, attempts, ih, List.append_assoc]

/-- Where a value was tried in vain there is a return in front. -/
theorem attempts_stand {d : Cursor} (tried : d ∈ record.attempts kinds) :
    ∃ c, d = c.next ∧ kinds.kindAt c = .keyword .return ∧ resumes (kinds.kindAt d) = true := by
  induction record with
  | nil => cases tried
  | noted event rest ih => exact ih tried
  | called rule c failed inside rest inner ih =>
    simp only [attempts, List.mem_append] at tried
    rcases tried with (own | among) | later
    · split at own
      · obtain ⟨_, found, resumes, _⟩ := vain_eq_true.1 ‹_›
        rw [List.mem_singleton.1 own]
        exact ⟨c, rfl, found, resumes⟩
      · cases own
    · exact inner among
    · exact ih later

/-- What is taken out of a record is not left as an attempt. -/
theorem out_of_attempts {d : Cursor} (tried : d ∈ (record.prune kinds out).attempts kinds) :
    out d = false := by
  induction record with
  | nil => cases tried
  | noted event rest ih => exact ih tried
  | called rule c failed inside rest inner ih =>
    cases isOut : inside.vain kinds rule c && out c.next with
    | true =>
      simp only [prune, isOut, if_true, attempts, vain_nil, List.append_nil] at tried
      exact ih (by simpa using tried)
    | false =>
      simp only [prune, isOut, Bool.false_eq_true, if_false, attempts, vain_prune,
        List.mem_append] at tried
      rcases tried with (own | among) | later
      · split at own <;> rename_i isVain
        · rw [List.mem_singleton.1 own]
          simpa [isVain] using isOut
        · cases own
      · exact inner among
      · exact ih later

end Record

/-- A row, which attempts in vain are taken out of the record, and where others may be left. -/
structure Ledger where
  kinds : Kinds
  out : Cursor → Bool
  places : Finset Cursor

namespace Ledger

variable (w : Ledger)

/-- How often a statement was taken back or a value tried in vain at some place. -/
def tally (record : Record) (place : Cursor) : Nat :=
  let kept := record.prune w.kinds w.out
  (retracted kept.events).count place + (kept.attempts w.kinds).count place

/-- All attempts that are left are at places that are allowed for. -/
def Confined (record : Record) : Prop :=
  ∀ d ∈ (record.prune w.kinds w.out).attempts w.kinds, d ∈ w.places

/-- Every statement that was taken back has a separator in front. -/
def Separated (record : Record) : Prop :=
  ∀ start ∈ retracted (record.prune w.kinds w.out).events, w.kinds.kindAt start.prev = .newline

/-- How often a place may be met while reading from a cursor on: once if nobody went back on the
    way, and twice as often for each place where somebody did. -/
def room (c place : Cursor) : Nat :=
  if c.index < place.index then
    2 ^ (w.places.filter fun e => c.index < e.index ∧ e.index < place.index).card
  else 0

variable {w : Ledger} {c d place : Cursor} {first rest record inside : Record} {rule : Rule}
  {failed : Bool}

theorem room_mono (ahead : c.index ≤ d.index) : w.room d place ≤ w.room c place := by
  unfold room
  split
  · rw [if_pos (by omega)]
    refine Nat.pow_le_pow_right Nat.two_pos (Finset.card_le_card fun e => ?_)
    simp only [Finset.mem_filter]
    exact fun inside => ⟨inside.1, by omega, inside.2.2⟩
  · exact Nat.zero_le _

theorem room_of_le (behind : place.index ≤ c.index) : w.room c place = 0 :=
  if_neg (by omega)

theorem one_le_room (ahead : c.index < place.index) : 1 ≤ w.room c place := by
  rw [room, if_pos ahead]
  exact Nat.one_le_two_pow

theorem index_lt_of_room (some : 0 < w.room c place) : c.index < place.index := by
  by_contra behind
  rw [room_of_le (by omega)] at some
  exact Nat.lt_irrefl 0 some

theorem room_le :
    w.room c place ≤ 2 ^ (w.places.filter fun e => e.index < place.index).card := by
  unfold room
  split
  · refine Nat.pow_le_pow_right Nat.two_pos (Finset.card_le_card fun e => ?_)
    simp only [Finset.mem_filter]
    exact fun inside => ⟨inside.1, inside.2.2⟩
  · exact Nat.zero_le _

/-- Who reads again from a place on that is allowed for has room to do so. -/
theorem two_mul_room (allowed : d ∈ w.places) (ahead : c.index < d.index) :
    2 * w.room d place ≤ w.room c place := by
  by_cases later : d.index < place.index
  · rw [room, room, if_pos later, if_pos (by omega), ← Nat.pow_succ']
    refine Nat.pow_le_pow_right Nat.two_pos (Finset.card_lt_card ?_)
    refine Finset.ssubset_iff_of_subset (fun e => ?_) |>.2 ⟨d, ?_, ?_⟩
    · simp only [Finset.mem_filter]
      exact fun inside => ⟨inside.1, by omega, inside.2.2⟩
    · simp only [Finset.mem_filter]
      exact ⟨allowed, ahead, later⟩
    · simp
  · rw [room_of_le (by omega)]
    exact Nat.zero_le _

/-- There is room to meet a place further on and then go on from there. -/
theorem room_of_met (w : Ledger) (place : Cursor) (ahead : c.index < d.index) :
    (if d = place then 1 else 0) + w.room d place ≤ w.room c place := by
  split
  · subst place
    rw [room_of_le (Nat.le_refl _)]
    exact one_le_room ahead
  · rw [Nat.zero_add]
    exact room_mono (Nat.le_of_lt ahead)

/-- At a place that is allowed for there is room to go on from there twice. -/
theorem room_of_tried (place : Cursor) (allowed : d ∈ w.places) (ahead : c.index < d.index) :
    (if d = place then 1 else 0) + 2 * w.room d place ≤ w.room c place := by
  split
  · subst place
    rw [room_of_le (Nat.le_refl _)]
    exact one_le_room ahead
  · rw [Nat.zero_add]
    exact two_mul_room allowed ahead

@[simp] theorem tally_nil : w.tally .nil place = 0 := rfl

@[simp] theorem tally_append :
    w.tally (first ++ rest) place = w.tally first place + w.tally rest place := by
  simp only [tally, Record.prune_append, Record.events_append, retracted_append,
    Record.attempts_append, List.count_append]
  omega

theorem tally_rolledBack (start : Cursor) (consumed : Nat) :
    w.tally (.noted (.rolledBack start consumed) .nil) place = if start = place then 1 else 0 := by
  change [start].count place + 0 = _
  simp [List.count_singleton]

@[simp] theorem confined_append :
    w.Confined (first ++ rest) ↔ w.Confined first ∧ w.Confined rest := by
  simp only [Confined, Record.prune_append, Record.attempts_append, List.mem_append]
  exact ⟨fun both => ⟨fun d among => both d (.inl among), fun d among => both d (.inr among)⟩,
    fun both d among => among.elim (both.1 d) (both.2 d)⟩

@[simp] theorem separated_append :
    w.Separated (first ++ rest) ↔ w.Separated first ∧ w.Separated rest := by
  simp only [Separated, Record.prune_append, Record.events_append, retracted_append]
  exact List.forall_mem_append

theorem separated_of_quiet (quiet : ∀ place, w.tally record place = 0) : w.Separated record := by
  intro start among
  have some := List.count_pos_iff.2 among
  have none := quiet start
  simp only [tally] at none
  omega

section Calls

variable (plain : inside.vain w.kinds rule c = false)

include plain

theorem tally_call : w.tally (.called rule c failed inside .nil) place = w.tally inside place := by
  have same : (inside.prune w.kinds w.out).vain w.kinds rule c = false :=
    Record.vain_prune.trans plain
  simp [tally, Record.prune, Record.events, Record.attempts, plain, same]

theorem confined_call :
    w.Confined (.called rule c failed inside .nil) ↔ w.Confined inside := by
  have same : (inside.prune w.kinds w.out).vain w.kinds rule c = false :=
    Record.vain_prune.trans plain
  simp [Confined, Record.prune, Record.attempts, plain, same]

theorem separated_call :
    w.Separated (.called rule c failed inside .nil) ↔ w.Separated inside := by
  simp [Separated, Record.prune, Record.events, plain]

end Calls

section Attempts

variable (isVain : inside.vain w.kinds rule c = true)

include isVain

theorem tally_out (out : w.out c.next = true) :
    w.tally (.called rule c failed inside .nil) place = 0 := by
  simp [tally, Record.prune, Record.events, Record.attempts, isVain, out, retracted]

theorem tally_vain (kept : w.out c.next = false) :
    w.tally (.called rule c failed inside .nil) place =
      (if c.next = place then 1 else 0) + w.tally inside place := by
  have same : (inside.prune w.kinds w.out).vain w.kinds rule c = true :=
    Record.vain_prune.trans isVain
  simp [tally, Record.prune, Record.events, Record.attempts, isVain, kept, same,
    List.count_cons]
  omega

theorem confined_vain (kept : w.out c.next = false) :
    w.Confined (.called rule c failed inside .nil) ↔ c.next ∈ w.places ∧ w.Confined inside := by
  have same : (inside.prune w.kinds w.out).vain w.kinds rule c = true :=
    Record.vain_prune.trans isVain
  simp [Confined, Record.prune, Record.attempts, isVain, kept, same]

theorem separated_vain (kept : w.out c.next = false) :
    w.Separated (.called rule c failed inside .nil) ↔ w.Separated inside := by
  simp [Separated, Record.prune, Record.events, isVain, kept]

end Attempts

end Ledger

/-- Whatever was met from a cursor on there was room for, and where reading goes on there still is,
    unless the token there is held back. -/
structure Account {α : Type} (w : Ledger) (held : α → TokenKind → Prop) (c : Cursor)
    (recorded : Recorded α) : Prop where
  separated : w.Separated recorded.2
  bounded : ∀ place, w.tally recorded.2 place ≤ w.room c place
  ahead : ∀ parsed, recorded.1 = .ok parsed → c.index ≤ parsed.cursor.index
  settles : ∀ parsed, recorded.1 = .ok parsed →
    (∀ place, w.tally recorded.2 place + w.room parsed.cursor place ≤ w.room c place) ∨
      held parsed.value (w.kinds.kindAt parsed.cursor)

/-- What happened is accounted for if the attempts that are left are allowed for. -/
def Frugal {α : Type} (w : Ledger) (held : α → TokenKind → Prop) (c : Cursor)
    (recorded : Recorded α) : Prop :=
  w.Confined recorded.2 → Account w held c recorded

/-- Nothing comes of it, and nothing is met. -/
def Mute {α : Type} (w : Ledger) (recorded : Recorded α) : Prop :=
  (∃ error, recorded.1 = .error error) ∧ ∀ place, w.tally recorded.2 place = 0

namespace Account

variable {α β : Type} {w : Ledger} {held : α → TokenKind → Prop} {c d : Cursor}
  {recorded : Recorded α}

theorem quiet (silent : ∀ place, w.tally recorded.2 place = 0)
    (ahead : ∀ parsed, recorded.1 = .ok parsed → c.index ≤ parsed.cursor.index) :
    Account w held c recorded where
  separated := Ledger.separated_of_quiet silent
  bounded place := by
    rw [silent]
    exact Nat.zero_le _
  ahead := ahead
  settles parsed succeeds := .inl fun place => by
    rw [silent, Nat.zero_add]
    exact Ledger.room_mono (ahead parsed succeeds)

theorem stay {value : α} (ahead : c.index ≤ d.index) :
    Account w held c (.ok ⟨value, d⟩, .nil) :=
  .quiet (fun _ => rfl) fun _ same => by
    cases same
    exact ahead

theorem fails {error : SyntaxError} : Account w held c (.error error, .nil) :=
  .quiet (fun _ => rfl) nofun

theorem mute (mute : Mute w recorded) : Account w held c recorded := by
  obtain ⟨⟨error, failed⟩, silent⟩ := mute
  exact .quiet silent fun parsed succeeds => by
    rw [failed] at succeeds
    cases succeeds

/-- What is wrong does not matter, nor what there would have been to hold back. -/
theorem fail {heldNext : β → TokenKind → Prop} {error : SyntaxError}
    (account : Account w held c recorded) : Account w heldNext c (.error error, recorded.2) :=
  ⟨account.separated, account.bounded, nofun, nofun⟩

/-- From further back there is as much room. -/
theorem widen (account : Account w held d recorded) (ahead : c.index ≤ d.index) :
    Account w held c recorded where
  separated := account.separated
  bounded place := Nat.le_trans (account.bounded place) (Ledger.room_mono ahead)
  ahead parsed succeeds := Nat.le_trans ahead (account.ahead parsed succeeds)
  settles parsed succeeds := (account.settles parsed succeeds).imp_left fun settled place =>
    Nat.le_trans (settled place) (Ledger.room_mono ahead)

theorem mono {weaker : α → TokenKind → Prop} (account : Account w held c recorded)
    (weaken : ∀ value kind, held value kind → weaker value kind) : Account w weaker c recorded where
  separated := account.separated
  bounded := account.bounded
  ahead := account.ahead
  settles parsed succeeds := (account.settles parsed succeeds).imp_right (weaken _ _)

/-- What is yielded instead may hold back other tokens. -/
theorem handOn {value : α} {other : β} {record : Record} {heldNext : β → TokenKind → Prop}
    (account : Account w held c (.ok ⟨value, d⟩, record))
    (weaken : held value (w.kinds.kindAt d) → heldNext other (w.kinds.kindAt d)) :
    Account w heldNext c (.ok ⟨other, d⟩, record) where
  separated := account.separated
  bounded := account.bounded
  ahead _ same := by
    cases same
    exact account.ahead _ rfl
  settles _ same := by
    cases same
    exact (account.settles _ rfl).imp_right weaken

/-- Reading may go on from the same token again if nobody can go on with it. -/
theorem giveUp {value : β} {heldNext : β → TokenKind → Prop} (account : Account w held c recorded)
    (still : heldNext value (w.kinds.kindAt c)) :
    Account w heldNext c (.ok ⟨value, c⟩, recorded.2) where
  separated := account.separated
  bounded := account.bounded
  ahead _ same := by
    cases same
    exact Nat.le_refl _
  settles _ same := by
    cases same
    exact .inr still

/-- Where a value was tried in vain and that is allowed for, there is room to go on from its first
    token as if nothing had happened. -/
theorem tried {value : β} {heldNext : β → TokenKind → Prop} {rule : Rule} {failed : Bool}
    (account : Account w held c.next recorded) (isVain : recorded.2.vain w.kinds rule c = true)
    (kept : w.out c.next = false) (allowed : c.next ∈ w.places) :
    Account w heldNext c (.ok ⟨value, c.next⟩, .called rule c failed recorded.2 .nil) where
  separated := (Ledger.separated_vain isVain kept).2 account.separated
  bounded place := by
    have inside := account.bounded place
    have met := Ledger.room_of_tried place allowed (Nat.lt_succ_self c.index)
    rw [Ledger.tally_vain isVain kept]
    omega
  ahead _ same := by
    cases same
    exact Nat.le_succ _
  settles _ same := by
    cases same
    refine .inl fun place => ?_
    have inside := account.bounded place
    have met := Ledger.room_of_tried place allowed (Nat.lt_succ_self c.index)
    rw [Ledger.tally_vain isVain kept]
    dsimp only
    omega

/-- A statement begins further on than all that was read before it was tried, and whatever was met
    inside it lay still further on. -/
theorem rollBack {value : β} {heldNext : β → TokenKind → Prop} {consumed : Nat}
    (account : Account w held d recorded) (ahead : c.index < d.index)
    (separator : w.kinds.kindAt d.prev = .newline)
    (still : heldNext value (w.kinds.kindAt d) ∨ ∀ place, w.tally recorded.2 place = 0) :
    Account w heldNext c
      (.ok ⟨value, d⟩, recorded.2 ++ .noted (.rolledBack d consumed) .nil) where
  separated := by
    refine Ledger.separated_append.2 ⟨account.separated, fun start among => ?_⟩
    rwa [List.mem_singleton.1 among]
  bounded place := by
    have inside := account.bounded place
    have met := w.room_of_met place ahead
    rw [Ledger.tally_append, Ledger.tally_rolledBack]
    omega
  ahead _ same := by
    cases same
    exact Nat.le_of_lt ahead
  settles _ same := by
    cases same
    refine still.symm.imp_left fun silent place => ?_
    rw [Ledger.tally_append, Ledger.tally_rolledBack, silent, Nat.zero_add]
    exact w.room_of_met place ahead

/-- What comes next has all the room that is left. -/
theorem goOn {first : Record} {next : Recorded β} {heldNext : β → TokenKind → Prop}
    (separated : w.Separated first)
    (settled : ∀ place, w.tally first place + w.room d place ≤ w.room c place)
    (ahead : c.index ≤ d.index) (rest : Account w heldNext d next) :
    Account w heldNext c (first.before next) where
  separated := Ledger.separated_append.2 ⟨separated, rest.separated⟩
  bounded place := by
    have here := settled place
    have there := rest.bounded place
    simp only [Record.before, Ledger.tally_append]
    omega
  ahead parsed succeeds := Nat.le_trans ahead (rest.ahead parsed succeeds)
  settles parsed succeeds := (rest.settles parsed succeeds).imp_left fun further place => by
    have here := settled place
    have there := further place
    simp only [Record.before, Ledger.tally_append]
    omega

theorem called {rule : Rule} (plain : recorded.2.vain w.kinds rule c = false)
    (account : Account w held c recorded) : Account w held c (recorded.called rule c) := by
  obtain ⟨error | parsed, inside⟩ := recorded
  · exact ⟨(Ledger.separated_call plain).2 account.separated,
      fun place => (Ledger.tally_call plain).symm ▸ account.bounded place, nofun, nofun⟩
  · refine ⟨(Ledger.separated_call plain).2 account.separated,
      fun place => (Ledger.tally_call plain).symm ▸ account.bounded place, account.ahead, ?_⟩
    intro parsed succeeds
    refine (account.settles parsed succeeds).imp_left fun settled place => ?_
    exact (Ledger.tally_call plain).symm ▸ settled place

end Account

namespace Frugal

variable {α : Type} {w : Ledger} {held : α → TokenKind → Prop} {c : Cursor} {recorded : Recorded α}

theorem called {rule : Rule} (plain : recorded.2.vain w.kinds rule c = false)
    (frugal : Frugal w held c recorded) : Frugal w held c (recorded.called rule c) := by
  intro confined
  refine (frugal ?_).called plain
  obtain ⟨error | parsed, inside⟩ := recorded
  · exact (Ledger.confined_call plain).1 confined
  · exact (Ledger.confined_call plain).1 confined

end Frugal

theorem Mute.called {α : Type} {w : Ledger} {rule : Rule} {c : Cursor} {recorded : Recorded α}
    (plain : recorded.2.vain w.kinds rule c = false) (mute : Mute w recorded) :
    Mute w (recorded.called rule c) := by
  obtain ⟨⟨error, failed⟩, silent⟩ := mute
  obtain ⟨outcome, inside⟩ := recorded
  cases failed
  exact ⟨⟨error, rfl⟩, fun place => (Ledger.tally_call plain).trans (silent place)⟩

end Sharp.Grammar
