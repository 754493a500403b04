import Sharp.Proofs.Quoting
import Sharp.Tree.Sexp

/-!
Unique reading of bracketed forms. A bare atom ends at the next blank, bracket, semicolon or quote,
and a quoted one at its own quote; every other form ends at the bracket that closes it. So a text
that begins with a form begins with no other one.
-/
namespace Sharp.Sexp

open Lexeme

def marks : List Char := [' ', '(', ')', '[', ']', '\x7b', '\x7d', ';', '"']

def isMark (c : Char) : Bool := marks.elem c

theorem isMark_eq_false {p : Char → Bool} {c : Char} (free : marks.any p = false)
    (holds : p c = true) : isMark c = false := by
  refine Bool.eq_false_iff.2 fun mark => ?_
  rw [List.any_eq_false] at free
  exact free c (List.elem_iff.1 mark) holds

def IsBare (text : String) : Prop := text ≠ "" ∧ ∀ c ∈ text.toList, isMark c = false

instance (text : String) : Decidable (IsBare text) :=
  decidable_of_iff (text ≠ "" ∧ text.toList.any isMark = false) (by simp [IsBare])

/-- Forms that can be read back. -/
inductive Readable : Sexp → Prop
  | bare {text : String} : IsBare text → Readable (.atom text)
  | quoted (text : String) : Readable (.atom (Text.quoted text))
  | round {items : List Sexp} : (∀ item ∈ items, Readable item) → Readable (.round items)
  | square {items : List Sexp} : (∀ item ∈ items, Readable item) → Readable (.square items)
  | curly {items : List Sexp} : (∀ item ∈ items, Readable item) → Readable (.curly items)

/-- No bare atom goes on. -/
def Closes (rest : List Char) : Prop := StopsAt (fun c => !isMark c) rest

/-- The first character of a form tells its kind. -/
def Opens : Sexp → Char → Prop
  | .atom _, c => c = '"' ∨ isMark c = false
  | .round _, c => c = '('
  | .square _, c => c = '['
  | .curly _, c => c = '\x7b'

section Texts

variable {form form' : Sexp} {items items' : List Sexp} {between : String} {close : Char}
  {rest rest' : List Char}

theorem toList_round :
    (text (.round items)).toList = '(' :: ((joined " " items).toList ++ [')']) := by
  simp [text]

theorem toList_square :
    (text (.square items)).toList = '[' :: ((joined " " items).toList ++ [']']) := by
  simp [text]

theorem toList_curly :
    (text (.curly items)).toList = '\x7b' :: ((joined "; " items).toList ++ ['\x7d']) := by
  simp [text]

theorem Readable.opens (readable : Readable form) :
    ∃ c cs, form.text.toList = c :: cs ∧ Opens form c := by
  cases readable with
  | @bare text bare =>
    obtain ⟨c, cs, chars⟩ := List.exists_cons_of_ne_nil (mt String.toList_eq_nil_iff.1 bare.1)
    exact ⟨c, cs, chars, .inr (bare.2 c (chars ▸ List.mem_cons_self))⟩
  | quoted text => exact ⟨'"', _, Text.toList_quoted text, .inl rfl⟩
  | round => exact ⟨_, _, toList_round, rfl⟩
  | square => exact ⟨_, _, toList_square, rfl⟩
  | curly => exact ⟨_, _, toList_curly, rfl⟩

end Texts

/-! ### Rows of forms -/

/-- A row's separator is told from its closing bracket at once, and both end a bare atom. -/
structure Parts (between : String) (close : Char) : Prop where
  separates : ∃ c cs, between.toList = c :: cs ∧ isMark c = true ∧ c ≠ close
  closes : close ∈ [')', ']', '\x7d']

/-- What a form is read as does not depend on what follows it. -/
def Unique (form : Sexp) : Prop :=
  ∀ ⦃form' : Sexp⦄ ⦃rest rest' : List Char⦄, Readable form' → Closes rest → Closes rest' →
    form.text.toList ++ rest = form'.text.toList ++ rest' → form = form' ∧ rest = rest'

section Rows

variable {form : Sexp} {items items' : List Sexp} {between : String} {close : Char}
  {rest rest' : List Char}

theorem closes_cons {c : Char} (mark : isMark c = true) : Closes (c :: rest) := by
  simp [Closes, StopsAt, mark]

theorem Parts.mark (parts : Parts between close) : isMark close = true := by
  have closes := parts.closes
  simp only [List.mem_cons, List.not_mem_nil, or_false] at closes
  rcases closes with rfl | rfl | rfl <;> decide

theorem Parts.closes_following (parts : Parts between close) (items : List Sexp) :
    Closes ((following between items).toList ++ close :: rest) := by
  cases items with
  | nil => exact closes_cons parts.mark
  | cons item items =>
    obtain ⟨c, cs, chars, mark, -⟩ := parts.separates
    simp only [following, String.toList_append, chars]
    exact closes_cons mark

theorem Parts.following_ne_close (parts : Parts between close) (item : Sexp) :
    (following between (item :: items)).toList ++ rest ≠ close :: rest' := by
  obtain ⟨c, cs, chars, -, other⟩ := parts.separates
  simp [following, chars, other]

theorem Parts.following_inj (parts : Parts between close)
    (unique : ∀ item ∈ items, Unique item) (readable : ∀ item ∈ items', Readable item)
    (same : (following between items).toList ++ close :: rest =
      (following between items').toList ++ close :: rest') : items = items' ∧ rest = rest' := by
  induction items generalizing items' with
  | nil =>
    cases items' with
    | nil => exact ⟨rfl, (List.cons.inj same).2⟩
    | cons item items' => exact absurd same.symm (parts.following_ne_close item)
  | cons item items ih =>
    cases items' with
    | nil => exact absurd same (parts.following_ne_close item)
    | cons item' items' =>
      rw [List.forall_mem_cons] at unique readable
      simp only [following, String.toList_append, List.append_assoc,
        List.append_cancel_left_eq] at same
      obtain ⟨rfl, behind⟩ := unique.1 readable.1 (parts.closes_following items)
        (parts.closes_following items') same
      obtain ⟨rfl, rfl⟩ := ih unique.2 readable.2 behind
      exact ⟨rfl, rfl⟩

theorem Opens.ne_close {c : Char} (opens : Opens form c) (closes : close ∈ [')', ']', '\x7d']) :
    c ≠ close := by
  rintro rfl
  simp only [List.mem_cons, List.not_mem_nil, or_false] at closes
  rcases closes with rfl | rfl | rfl <;> cases form <;> revert opens <;> simp only [Opens] <;>
    decide

theorem Parts.joined_ne_close (parts : Parts between close) (readable : Readable form) :
    (joined between (form :: items)).toList ++ rest ≠ close :: rest' := by
  obtain ⟨c, cs, chars, opens⟩ := readable.opens
  simp [joined, chars, opens.ne_close parts.closes]

theorem Parts.joined_inj (parts : Parts between close)
    (unique : ∀ item ∈ items, Readable item ∧ Unique item)
    (readable : ∀ item ∈ items', Readable item)
    (same : (joined between items).toList ++ close :: rest =
      (joined between items').toList ++ close :: rest') : items = items' ∧ rest = rest' := by
  cases items with
  | nil =>
    cases items' with
    | nil => exact ⟨rfl, (List.cons.inj same).2⟩
    | cons item items' =>
      exact absurd same.symm (parts.joined_ne_close (readable item List.mem_cons_self))
  | cons item items =>
    rw [List.forall_mem_cons] at unique
    cases items' with
    | nil => exact absurd same (parts.joined_ne_close unique.1.1)
    | cons item' items' =>
      rw [List.forall_mem_cons] at readable
      simp only [joined, String.toList_append, List.append_assoc] at same
      obtain ⟨rfl, behind⟩ := unique.1.2 readable.1 (parts.closes_following items)
        (parts.closes_following items') same
      obtain ⟨rfl, rfl⟩ := parts.following_inj (fun item among => (unique.2 item among).2)
        readable.2 behind
      exact ⟨rfl, rfl⟩

end Rows

section Unique

variable {form form' : Sexp} {text : String} {c : Char} {rest rest' : List Char}

/-- Forms of different kinds begin differently. -/
def SameKind : Sexp → Sexp → Prop
  | .atom _, .atom _ | .round _, .round _ | .square _, .square _ | .curly _, .curly _ => True
  | _, _ => False

theorem Opens.sameKind (opens : Opens form c) (opens' : Opens form' c) : SameKind form form' := by
  cases form <;> cases form' <;> simp_all [Opens, SameKind, isMark, marks]

theorem sameKind_of_same (readable : Readable form) (readable' : Readable form')
    (same : form.text.toList ++ rest = form'.text.toList ++ rest') : SameKind form form' := by
  obtain ⟨c, cs, chars, opens⟩ := readable.opens
  obtain ⟨c', cs', chars', opens'⟩ := readable'.opens
  rw [chars, chars'] at same
  obtain rfl : c = c' := (List.cons.inj same).1
  exact opens.sameKind opens'

theorem IsBare.append_ne_quoted (bare : IsBare text) (other : String) :
    text.toList ++ rest ≠ (Text.quoted other).toList ++ rest' := by
  obtain ⟨c, cs, chars⟩ := List.exists_cons_of_ne_nil (mt String.toList_eq_nil_iff.1 bare.1)
  have inside := bare.2 c (chars ▸ List.mem_cons_self)
  rw [chars, Text.toList_quoted]
  intro same
  rw [(List.cons.inj same).1] at inside
  exact absurd inside (by decide)

theorem unique_atom (readable : Readable (.atom text)) : Unique (.atom text) := by
  intro form' rest rest' readable' closes closes' same
  have kind := sameKind_of_same readable readable' same
  cases readable' with
  | bare bare' =>
    cases readable with
    | bare bare =>
      obtain ⟨texts, behind⟩ := run_append_inj (fun c member => by simp [bare.2 c member])
        (fun c member => by simp [bare'.2 c member]) closes closes' same
      exact ⟨congrArg Sexp.atom (String.toList_inj.1 texts), behind⟩
    | quoted => exact absurd same.symm (bare'.append_ne_quoted _)
  | quoted =>
    cases readable with
    | bare bare => exact absurd same (bare.append_ne_quoted _)
    | quoted =>
      obtain ⟨texts, behind⟩ := Text.quoted_append_inj same
      exact ⟨by rw [texts], behind⟩
  | _ => exact kind.elim

theorem unique_wrapped {wrap : List Sexp → Sexp} {opening close : Char} {between : String}
    {items : List Sexp} (parts : Parts between close)
    (chars : ∀ items, (wrap items).text.toList =
      opening :: ((joined between items).toList ++ [close]))
    (inside : ∀ ⦃form⦄, Readable form → SameKind (wrap items) form →
      ∃ items', form = wrap items' ∧ ∀ item ∈ items', Readable item)
    (readable : Readable (wrap items)) (unique : ∀ item ∈ items, Readable item ∧ Unique item) :
    Unique (wrap items) := by
  intro form' rest rest' readable' _ _ same
  obtain ⟨items', rfl, within⟩ := inside readable' (sameKind_of_same readable readable' same)
  simp only [chars, List.cons_append, List.append_assoc, List.nil_append, List.cons.injEq,
    true_and] at same
  obtain ⟨rfl, rfl⟩ := parts.joined_inj unique within same
  exact ⟨rfl, rfl⟩

/-- A text that begins with a form begins with no other one. -/
theorem Readable.unique (readable : Readable form) : Unique form := by
  induction readable with
  | bare bare => exact unique_atom (.bare bare)
  | quoted text => exact unique_atom (.quoted text)
  | round readable ih =>
    have parts : Parts " " ')' := ⟨⟨' ', [], rfl, rfl, by decide⟩, by decide⟩
    refine unique_wrapped parts (fun _ => toList_round) ?_ (.round readable)
      fun item among => ⟨readable item among, ih item among⟩
    intro form' readable' kind
    cases readable' with
    | round within => exact ⟨_, rfl, within⟩
    | _ => exact kind.elim
  | square readable ih =>
    have parts : Parts " " ']' := ⟨⟨' ', [], rfl, rfl, by decide⟩, by decide⟩
    refine unique_wrapped parts (fun _ => toList_square) ?_ (.square readable)
      fun item among => ⟨readable item among, ih item among⟩
    intro form' readable' kind
    cases readable' with
    | square within => exact ⟨_, rfl, within⟩
    | _ => exact kind.elim
  | curly readable ih =>
    have parts : Parts "; " '\x7d' := ⟨⟨';', [' '], rfl, rfl, by decide⟩, by decide⟩
    refine unique_wrapped parts (fun _ => toList_curly) ?_ (.curly readable)
      fun item among => ⟨readable item among, ih item among⟩
    intro form' readable' kind
    cases readable' with
    | curly within => exact ⟨_, rfl, within⟩
    | _ => exact kind.elim

theorem text_injective (readable : Readable form) (readable' : Readable form')
    (same : form.text = form'.text) : form = form' := by
  have nothing : Closes [] := by simp [Closes, StopsAt]
  exact (readable.unique readable' nothing nothing (by rw [same])).1

end Unique

end Sharp.Sexp
