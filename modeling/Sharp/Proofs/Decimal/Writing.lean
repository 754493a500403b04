import Mathlib
import Sharp.Proofs.Decimal.Rounding
import Sharp.Proofs.Lexeme.Spelling

/-!
How a decimal is written: digits, then a point and more digits, then a power of ten, the last two
each where needed. Such a text says what its parts are and so which number it stands for, and the
layouts of a decimal stand for its value. Texts of different finite floats differ.
-/
namespace Sharp.Decimal

open Lexeme

structure Written where
  whole : List Char
  fraction : List Char
  power : Option Int

namespace Written

def pointed : List Char → List Char
  | [] => []
  | c :: cs => '.' :: c :: cs

theorem pointed_of_ne_nil {fraction : List Char} (digits : fraction ≠ []) :
    pointed fraction = '.' :: fraction := by
  cases fraction with
  | nil => exact absurd rfl digits
  | cons => rfl

def powered (power : Option Int) : List Char := power.elim [] fun p => 'e' :: p.repr.toList

def chars (w : Written) : List Char := w.whole ++ (pointed w.fraction ++ powered w.power)

def worth (w : Written) : ℚ :=
  digitsValue (w.whole ++ w.fraction) * 10 ^ (w.power.getD 0 - w.fraction.length)

/-- Digits stand where digits belong, and what follows the first ones tells the text from that of
    a whole number. -/
structure Proper (w : Written) : Prop where
  starts : w.whole ≠ []
  whole : AreDigits w.whole
  fraction : AreDigits w.fraction
  marked : w.fraction ≠ [] ∨ w.power.isSome

section Unique

variable {w w' : Written} {p q : Option Int}

theorem powered_injective (same : powered p = powered q) : p = q := by
  cases p <;> cases q <;> simp only [powered, Option.elim, reduceCtorEq, List.cons.injEq, true_and,
    String.toList_inj] at same ⊢
  rw [Int.repr_injective same]

theorem stopsAt_powered (p : Option Int) : StopsAt Char.isDigit (powered p) := by
  cases p <;> simp [StopsAt, powered]

theorem stopsAt_pointed (fraction : List Char) (p : Option Int) :
    StopsAt Char.isDigit (pointed fraction ++ powered p) := by
  cases fraction with
  | nil => exact stopsAt_powered p
  | cons c cs => simp [StopsAt, pointed]

theorem pointed_append_inj {fraction fraction' : List Char} (digits : AreDigits fraction)
    (digits' : AreDigits fraction')
    (same : pointed fraction ++ powered p = pointed fraction' ++ powered q) :
    fraction = fraction' ∧ p = q := by
  have pointless (p : Option Int) (cs : List Char) : powered p ≠ '.' :: cs := by
    cases p <;> simp [powered]
  cases fraction with
  | nil =>
    cases fraction' with
    | nil => exact ⟨rfl, powered_injective same⟩
    | cons => exact absurd same (pointless _ _)
  | cons =>
    cases fraction' with
    | nil => exact absurd same.symm (pointless _ _)
    | cons =>
      have behind := (List.cons.inj same).2
      obtain ⟨fractions, powers⟩ := run_append_inj digits digits' (stopsAt_powered p)
        (stopsAt_powered q) behind
      exact ⟨fractions, powered_injective powers⟩

theorem Proper.eq_of_chars (proper : w.Proper) (proper' : w'.Proper) (same : w.chars = w'.chars) :
    w = w' := by
  obtain ⟨whole, fraction, power⟩ := w
  obtain ⟨whole', fraction', power'⟩ := w'
  obtain ⟨rfl, behind⟩ := run_append_inj proper.whole proper'.whole (stopsAt_pointed _ _)
    (stopsAt_pointed _ _) same
  obtain ⟨rfl, rfl⟩ := pointed_append_inj proper.fraction proper'.fraction behind
  rfl

end Unique

end Written

namespace Numeral

variable {d : Numeral}

theorem areDigits_figures (d : Numeral) : AreDigits d.figures :=
  fun _ member => Nat.isDigit_of_mem_toDigits (by decide) (by decide) member

theorem areDigits_zeros (n : Nat) : AreDigits (List.replicate n '0') := by
  intro c member
  rw [List.eq_of_mem_replicate member]
  decide

theorem length_figures_pos (d : Numeral) : 0 < d.figures.length := Nat.length_toDigits_pos

theorem digitsValue_figures (d : Numeral) : digitsValue d.figures = d.digits :=
  Nat.ofDigitChars_ten_toDigits

theorem digitsValue_figures_zeros (d : Numeral) (n : Nat) :
    digitsValue (d.figures ++ List.replicate n '0') = d.digits * 10 ^ n := by
  have value : digitsValue (d.figures ++ List.replicate n '0') =
      Nat.ofDigitChars 10 (List.replicate n '0') (digitsValue d.figures) :=
    Nat.ofDigitChars_append 0
  rw [value, Nat.ofDigitChars_replicate_zero, digitsValue_figures, Nat.mul_comm]

theorem digitsValue_zeros_figures (d : Numeral) (n : Nat) :
    digitsValue (List.replicate n '0' ++ d.figures) = d.digits := by
  have value : digitsValue (List.replicate n '0' ++ d.figures) =
      Nat.ofDigitChars 10 d.figures (digitsValue (List.replicate n '0')) :=
    Nat.ofDigitChars_append 0
  have nothing : digitsValue (List.replicate n '0') = 0 := by
    rw [← Nat.mul_zero (10 ^ n)]
    exact Nat.ofDigitChars_replicate_zero
  rw [value, nothing]
  exact digitsValue_figures d

theorem worth_eq {w : Written} (padding : Nat)
    (digits : digitsValue (w.whole ++ w.fraction) = d.digits * 10 ^ padding)
    (places : w.power.getD 0 - w.fraction.length + padding = d.exponent) : w.worth = d.value := by
  rw [Written.worth, value, digits, ← places, zpow_add₀ (by norm_num), zpow_natCast]
  push_cast
  ring

/-- A text of the numeral with its parts laid open. -/
def IsWritten (d : Numeral) (text : String) : Prop :=
  ∃ w : Written, w.Proper ∧ text.toList = w.chars ∧ w.worth = d.value

theorem isWritten_whole (large : 0 ≤ d.exponent) : d.IsWritten d.writtenOut := by
  refine ⟨⟨d.figures ++ List.replicate d.exponent.toNat '0', ['0'], none⟩, ⟨?_, ?_, ?_, ?_⟩, ?_, ?_⟩
  · exact List.append_ne_nil_of_left_ne_nil Nat.toDigits_ne_nil _
  · exact List.forall_mem_append.2 ⟨areDigits_figures d, areDigits_zeros _⟩
  · exact areDigits_zeros 1
  · exact .inl (List.cons_ne_nil _ _)
  · rw [writtenOut, if_pos large]
    simp [Written.chars, Written.pointed, Written.powered, zeros]
  · have digits := digitsValue_figures_zeros d (d.exponent.toNat + 1)
    rw [List.replicate_succ', ← List.append_assoc] at digits
    refine worth_eq _ digits ?_
    simp only [Option.getD_none, List.length_singleton]
    omega

/-- The figures cut in two by a point. -/
def cut (d : Numeral) (places : Nat) (power : Option Int) : Written :=
  ⟨d.figures.take places, d.figures.drop places, power⟩

theorem proper_cut {places : Nat} {power : Option Int} (positive : 0 < places)
    (marked : d.figures.drop places ≠ [] ∨ power.isSome) : (d.cut places power).Proper where
  starts := by
    have figures := length_figures_pos d
    apply List.ne_nil_of_length_pos
    rw [cut, List.length_take]
    omega
  whole c member := areDigits_figures d c (List.mem_of_mem_take member)
  fraction c member := areDigits_figures d c (List.mem_of_mem_drop member)
  marked := marked

theorem worth_cut {places : Nat} {power : Option Int}
    (same : power.getD 0 - (d.figures.drop places).length = d.exponent) :
    (d.cut places power).worth = d.value := by
  apply worth_eq 0
  · rw [cut, List.take_append_drop, digitsValue_figures, Nat.pow_zero, Nat.mul_one]
  · rw [cut, same, Nat.cast_zero, Int.add_zero]

theorem isWritten_pointed (small : d.exponent < 0) (leading : 0 ≤ d.leading) :
    d.IsWritten d.writtenOut := by
  have behind : (d.figures.drop (d.leading.toNat + 1)).length = (-d.exponent).toNat := by
    have figures := length_figures_pos d
    rw [List.length_drop]
    unfold Numeral.leading at leading ⊢
    omega
  have fraction : d.figures.drop (d.leading.toNat + 1) ≠ [] :=
    List.ne_nil_of_length_pos (by omega)
  refine ⟨d.cut (d.leading.toNat + 1) none, proper_cut (Nat.succ_pos _) (.inl fraction), ?_, ?_⟩
  · rw [writtenOut, if_neg (Int.not_le.2 small), if_pos leading]
    simp [cut, Written.chars, Written.pointed_of_ne_nil fraction, Written.powered]
  · apply worth_cut
    rw [Option.getD_none, behind]
    omega

theorem isWritten_small (small : d.exponent < 0) (leading : d.leading < 0) :
    d.IsWritten d.writtenOut := by
  have fraction : List.replicate (-d.leading - 1).toNat '0' ++ d.figures ≠ [] :=
    List.append_ne_nil_of_right_ne_nil _ Nat.toDigits_ne_nil
  refine ⟨⟨['0'], List.replicate (-d.leading - 1).toNat '0' ++ d.figures, none⟩,
    ⟨List.cons_ne_nil _ _, areDigits_zeros 1, ?_, .inl fraction⟩, ?_, ?_⟩
  · exact List.forall_mem_append.2 ⟨areDigits_zeros _, areDigits_figures d⟩
  · rw [writtenOut, if_neg (Int.not_le.2 small), if_neg (Int.not_le.2 leading), Written.chars,
      Written.pointed_of_ne_nil fraction]
    simp [Written.powered, zeros]
  · refine worth_eq 0 ?_ ?_
    · rw [Nat.pow_zero, Nat.mul_one]
      exact digitsValue_zeros_figures d ((-d.leading - 1).toNat + 1)
    · simp only [Option.getD_none, List.length_append, List.length_replicate]
      unfold Numeral.leading at leading ⊢
      omega

theorem isWritten_scientific (d : Numeral) : d.IsWritten d.scientific := by
  refine ⟨d.cut 1 (some d.leading), proper_cut Nat.one_pos (.inr rfl), ?_, ?_⟩
  · rw [scientific, cut]
    rcases d.figures.drop 1 with _ | ⟨c, cs⟩ <;>
      simp [Written.chars, Written.pointed, Written.powered, Int.toString_eq_repr]
  · have figures := length_figures_pos d
    apply worth_cut
    rw [Option.getD_some, List.length_drop, Numeral.leading]
    omega

theorem isWritten_text (d : Numeral) : d.IsWritten d.text := by
  unfold text
  split
  · rcases Int.lt_or_le d.exponent 0 with small | large
    · rcases Int.lt_or_le d.leading 0 with low | high
      · exact isWritten_small small low
      · exact isWritten_pointed small high
    · exact isWritten_whole large
  · exact isWritten_scientific d

end Numeral

section Magnitudes

variable {m n : Nat}

/-- A magnitude's text stands for a number that rounds to it. -/
theorem exists_written (finite : m < infiniteMagnitude) :
    ∃ w : Written, w.Proper ∧ (magnitudeText m).toList = w.chars ∧
      (Binary.ofMagnitude m).Holds w.worth := by
  unfold magnitudeText
  split
  · rename_i zero
    refine ⟨⟨['0'], ['0'], none⟩, ⟨?_, ?_, ?_, ?_⟩, by decide, ?_⟩
    · exact List.cons_ne_nil _ _
    · exact Numeral.areDigits_zeros 1
    · exact Numeral.areDigits_zeros 1
    · exact .inl (List.cons_ne_nil _ _)
    · subst zero
      exact Binary.holds_of_admits (v := .ofMagnitude 0) (e := -1) (d := 0) (by decide +kernel)
  · rename_i positive
    rw [if_neg finite.ne]
    obtain ⟨w, proper, same, worth⟩ := (Binary.ofMagnitude m).shortest.isWritten_text
    have held := Binary.holds_shortest (Binary.exponent_ofMagnitude m)
      (Binary.significand_ofMagnitude (Nat.pos_of_ne_zero positive) finite)
    exact ⟨w, proper, same, worth ▸ held⟩

theorem magnitudeText_injective (finite : m < infiniteMagnitude) (finite' : n < infiniteMagnitude)
    (same : magnitudeText m = magnitudeText n) : m = n := by
  obtain ⟨w, proper, text, held⟩ := exists_written finite
  obtain ⟨w', proper', text', held'⟩ := exists_written finite'
  obtain rfl := proper.eq_of_chars proper' (text.symm.trans (same ▸ text'))
  exact Binary.holds_unique finite finite' held held'

end Magnitudes

/-- The digits and the sign of a whole number. -/
def isFigure (c : Char) : Bool := c.isDigit || c == '-'

/-- What tells a float's text from that of a whole number. -/
def isMarker (c : Char) : Bool := c == '.' || c == 'e'

/-- A number's text that is none of a whole number. -/
structure IsFloating (text : List Char) : Prop where
  starts : ∃ c cs, text = c :: cs ∧ isFigure c = true
  marked : ∃ c ∈ text, isMarker c = true
  made : ∀ c ∈ text, isFigure c = true ∨ isMarker c = true

theorem isFigure_of_isDigit {c : Char} (digit : c.isDigit = true) : isFigure c = true := by
  rw [isFigure, digit, Bool.true_or]

theorem isFigure_of_mem_repr {p : Int} : ∀ c ∈ p.repr.toList, isFigure c = true := by
  have digits (n : Nat) : ∀ c ∈ n.repr.toList, isFigure c = true := by
    intro c member
    rw [Nat.toList_repr] at member
    exact isFigure_of_isDigit (Nat.isDigit_of_mem_toDigits (by decide) (by decide) member)
  cases p with
  | ofNat n => exact digits n
  | negSucc n =>
    have text : (Int.negSucc n).repr.toList = '-' :: (n + 1).repr.toList := by
      simp [Int.repr]
    rw [text, List.forall_mem_cons]
    exact ⟨by decide, digits (n + 1)⟩

theorem toList_repr_ne_nil (p : Int) : p.repr.toList ≠ [] := by
  cases p with
  | ofNat n =>
    change n.repr.toList ≠ []
    rw [Nat.toList_repr]
    exact Nat.toDigits_ne_nil
  | negSucc n => simp [Int.repr]

namespace Written

variable {w : Written}

theorem Proper.exists_digit (proper : w.Proper) :
    ∃ c cs, w.chars = c :: cs ∧ c.isDigit = true := by
  obtain ⟨c, cs, whole⟩ := List.exists_cons_of_ne_nil proper.starts
  exact ⟨c, cs ++ (pointed w.fraction ++ powered w.power), by rw [chars, whole]; rfl,
    proper.whole c (whole ▸ List.mem_cons_self)⟩

theorem Proper.exists_marker (proper : w.Proper) : ∃ c ∈ w.chars, isMarker c = true := by
  rcases proper.marked with fraction | power
  · exact ⟨'.', by simp [chars, pointed_of_ne_nil fraction], rfl⟩
  · obtain ⟨p, power⟩ := Option.isSome_iff_exists.1 power
    exact ⟨'e', by simp [chars, power, powered], rfl⟩

theorem Proper.made (proper : w.Proper) : ∀ c ∈ w.chars, isFigure c = true ∨ isMarker c = true := by
  intro c member
  rcases List.mem_append.1 member with whole | behind
  · exact .inl (isFigure_of_isDigit (proper.whole c whole))
  rcases List.mem_append.1 behind with fraction | power
  · rcases eq_or_ne w.fraction [] with none | some
    · simp [none, pointed] at fraction
    · rw [pointed_of_ne_nil some] at fraction
      rcases List.mem_cons.1 fraction with rfl | later
      · exact .inr rfl
      · exact .inl (isFigure_of_isDigit (proper.fraction c later))
  · cases shown : w.power with
    | none => simp [shown, powered] at power
    | some p =>
      rw [shown] at power
      rcases List.mem_cons.1 power with rfl | later
      · exact .inr rfl
      · exact .inl (isFigure_of_mem_repr c later)

end Written

section Floats

variable {x y : Float}

/-- A sign if there is one, and then a decimal whose first digit shows where the sign ends. -/
theorem floatText_eq (finite : magnitude x < infiniteMagnitude) :
    (floatText x).toList =
      (if isNegative x then ['-'] else []) ++ (magnitudeText (magnitude x)).toList := by
  rw [floatText, if_neg finite.not_gt]
  split <;> simp

theorem isFloating_floatText (finite : magnitude x < infiniteMagnitude) :
    IsFloating (floatText x).toList := by
  obtain ⟨w, proper, text, -⟩ := exists_written finite
  obtain ⟨c, cs, digits, digit⟩ := proper.exists_digit
  obtain ⟨marker, member, marked⟩ := proper.exists_marker
  rw [floatText_eq finite, text]
  refine ⟨?_, ⟨marker, List.mem_append_right _ member, marked⟩, ?_⟩
  · rw [digits]
    split
    · exact ⟨'-', c :: cs, rfl, rfl⟩
    · exact ⟨c, cs, rfl, isFigure_of_isDigit digit⟩
  · refine List.forall_mem_append.2 ⟨?_, proper.made⟩
    split <;> simp [isFigure]

theorem eq_of_magnitude (negative : isNegative x = isNegative y)
    (magnitudes : magnitude x = magnitude y) : x = y := by
  have bits := x.toBits.toNat_lt
  have bits' := y.toBits.toNat_lt
  simp only [isNegative, magnitude, Nat.pow_eq, decide_eq_decide] at negative magnitudes
  rw [← Float.toBits_inj, ← UInt64.toNat_inj]
  omega

theorem unsigned_ne_signed {m n : Nat} (finite : m < infiniteMagnitude) :
    (magnitudeText m).toList ≠ '-' :: (magnitudeText n).toList := by
  intro same
  obtain ⟨w, proper, text, -⟩ := exists_written finite
  obtain ⟨c, cs, digits, digit⟩ := proper.exists_digit
  rw [text, digits] at same
  rw [(List.cons.inj same).1] at digit
  exact absurd digit (by decide)

theorem floatText_injective (finite : magnitude x < infiniteMagnitude)
    (finite' : magnitude y < infiniteMagnitude) (same : floatText x = floatText y) : x = y := by
  have texts := congrArg String.toList same
  rw [floatText_eq finite, floatText_eq finite'] at texts
  have magnitudes (texts : (magnitudeText (magnitude x)).toList =
      (magnitudeText (magnitude y)).toList) : magnitude x = magnitude y :=
    magnitudeText_injective finite finite' (String.toList_inj.1 texts)
  cases negative : isNegative x <;> cases negative' : isNegative y <;>
    simp only [negative, negative', Bool.false_eq_true, reduceIte, List.nil_append,
      List.cons_append, List.cons.injEq, true_and] at texts
  · exact eq_of_magnitude (negative.trans negative'.symm) (magnitudes texts)
  · exact absurd texts (unsigned_ne_signed finite)
  · exact absurd texts.symm (unsigned_ne_signed finite')
  · exact eq_of_magnitude (negative.trans negative'.symm) (magnitudes texts)

end Floats

end Sharp.Decimal
