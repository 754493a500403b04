import Sharp.Proofs.Lexeme.Spelling
import Sharp.Text.Quoted

/-!
How text is quoted. What stands for one character never begins what stands for another one, and
never with a quote, so a quoted text shows where it ends and what is quoted.
-/
namespace Sharp.Text

open Lexeme

/-! ### Numbers of characters -/

section Numbers

variable {m n : Nat}

theorem digitChar_injective :
    ∀ a < 16, ∀ b < 16, Nat.digitChar a = Nat.digitChar b → a = b := by
  decide

theorem singleton_ne_toDigits_append (c d : Char) : [c] ≠ Nat.toDigits 16 n ++ [d] := by
  intro same
  have lengths := congrArg List.length same
  have positive : 0 < (Nat.toDigits 16 n).length := Nat.length_toDigits_pos
  simp only [List.length_append, List.length_singleton] at lengths
  omega

theorem toDigits_injective (same : Nat.toDigits 16 m = Nat.toDigits 16 n) : m = n := by
  induction m using Nat.strongRecOn generalizing n with
  | ind m ih =>
    rw [Nat.toDigits_eq_if (by decide), Nat.toDigits_eq_if (n := n) (by decide)] at same
    split at same <;> split at same
    · rename_i small small'
      exact digitChar_injective m small n small' (List.cons.inj same).1
    · exact absurd same (singleton_ne_toDigits_append _ _)
    · exact absurd same.symm (singleton_ne_toDigits_append _ _)
    · obtain ⟨front, last⟩ := List.append_inj' same rfl
      have quotients := ih (m / 16) (by omega) front
      have rests := digitChar_injective _ (Nat.mod_lt m (by decide)) _ (Nat.mod_lt n (by decide))
        (List.cons.inj last).1
      omega

theorem brace_not_mem_toDigits (n : Nat) : '\x7d' ∉ Nat.toDigits 16 n := by
  induction n using Nat.strongRecOn with
  | ind n ih =>
    rw [Nat.toDigits_eq_if (by decide)]
    split
    · exact mt List.mem_singleton.1 (Nat.digitChar_ne '\x7d' (by decide)).symm
    · rename_i large
      refine List.not_mem_append (ih (n / 16) (by omega)) ?_
      exact mt List.mem_singleton.1 (Nat.digitChar_ne '\x7d' (by decide)).symm

end Numbers

/-! ### Characters -/

section Characters

variable {c d : Char} {cs ds rest rest' : List Char}

/-- The character an escape of two signs stands for. -/
def meant : Char → Char
  | '0' => '\x00'
  | 't' => '\t'
  | 'r' => '\r'
  | 'n' => '\n'
  | sign => sign

/-- The ways to write a character. -/
inductive Stands (c : Char) : List Char → Prop
  | short {sign : Char} : sign ≠ 'u' → meant sign = c → Stands c ['\\', sign]
  | numbered : Stands c (numbered c)
  | plain : c ≠ '\\' → c ≠ '"' → Stands c [c]

theorem stands_escaped (c : Char) : Stands c (escaped c) := by
  unfold escaped
  iterate 6
    split
    · exact .short (by decide) (by subst c; rfl)
  split
  · exact .numbered
  · exact .plain ‹_› ‹_›

theorem numbered_append (c : Char) (rest : List Char) :
    numbered c ++ rest =
      '\\' :: 'u' :: '\x7b' :: (Nat.toDigits 16 c.toNat ++ '\x7d' :: rest) := by
  simp [numbered]

theorem numbered_append_inj (same : numbered c ++ rest = numbered d ++ rest') :
    c = d ∧ rest = rest' := by
  have inside (c : Char) : ∀ d ∈ Nat.toDigits 16 c.toNat, (d != '\x7d') = true :=
    fun d member => bne_iff_ne.2 fun brace => brace_not_mem_toDigits _ (brace ▸ member)
  have stops (rest : List Char) : StopsAt (· != '\x7d') ('\x7d' :: rest) := by
    simp [StopsAt]
  simp only [numbered_append, List.cons.injEq, true_and] at same
  obtain ⟨digits, behind⟩ := run_append_inj (inside c) (inside d) (stops rest) (stops rest') same
  exact ⟨Char.toNat_inj.1 (toDigits_injective digits), (List.cons.inj behind).2⟩

theorem Stands.append_inj (stands : Stands c cs) (stands' : Stands d ds)
    (same : cs ++ rest = ds ++ rest') : c = d ∧ rest = rest' := by
  cases stands with
  | short other means =>
    cases stands' with
    | short _ means' =>
      obtain ⟨signs, behind⟩ := List.cons.inj (List.cons.inj same).2
      exact ⟨by rw [← means, ← means', signs], behind⟩
    | numbered =>
      rw [numbered_append] at same
      exact absurd (List.cons.inj (List.cons.inj same).2).1 other
    | plain slash _ => exact absurd (List.cons.inj same).1.symm slash
  | numbered =>
    cases stands' with
    | short other _ =>
      rw [numbered_append] at same
      exact absurd (List.cons.inj (List.cons.inj same).2).1.symm other
    | numbered => exact numbered_append_inj same
    | plain slash _ =>
      rw [numbered_append] at same
      exact absurd (List.cons.inj same).1.symm slash
  | plain slash _ =>
    cases stands' with
    | short => exact absurd (List.cons.inj same).1 slash
    | numbered =>
      rw [numbered_append] at same
      exact absurd (List.cons.inj same).1 slash
    | plain => exact List.cons.inj same

theorem Stands.ne_quote (stands : Stands c cs) : cs ++ rest ≠ '"' :: rest' := by
  cases stands with
  | short => simp
  | numbered => simp [numbered_append]
  | plain _ quote => simp [quote]

end Characters

/-! ### Texts -/

section Texts

variable {cs ds rest rest' : List Char}

theorem escapes_append_inj
    (same : cs.flatMap escaped ++ '"' :: rest = ds.flatMap escaped ++ '"' :: rest') :
    cs = ds ∧ rest = rest' := by
  induction cs generalizing ds with
  | nil =>
    cases ds with
    | nil => exact ⟨rfl, (List.cons.inj same).2⟩
    | cons d ds =>
      rw [List.flatMap_cons, List.append_assoc] at same
      exact absurd same.symm (stands_escaped d).ne_quote
  | cons c cs ih =>
    rw [List.flatMap_cons, List.append_assoc] at same
    cases ds with
    | nil => exact absurd same (stands_escaped c).ne_quote
    | cons d ds =>
      rw [List.flatMap_cons, List.append_assoc] at same
      obtain ⟨rfl, behind⟩ := (stands_escaped c).append_inj (stands_escaped d) same
      obtain ⟨rfl, rfl⟩ := ih behind
      exact ⟨rfl, rfl⟩

theorem toList_quoted (s : String) :
    (quoted s).toList = '"' :: (s.toList.flatMap escaped ++ ['"']) := by
  simp [quoted]

/-- A quoted text shows where it ends and what is quoted. -/
theorem quoted_append_inj {s t : String}
    (same : (quoted s).toList ++ rest = (quoted t).toList ++ rest') : s = t ∧ rest = rest' := by
  simp only [toList_quoted, List.cons_append, List.append_assoc, List.nil_append] at same
  obtain ⟨texts, behind⟩ := escapes_append_inj (List.cons.inj same).2
  exact ⟨String.toList_inj.1 texts, behind⟩

end Texts

end Sharp.Text
