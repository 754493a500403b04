import Mathlib.Data.List.Destutter
import Sharp.Proofs.Grammar.Success

/-!
Rows without blank lines. Of every run of separators only the first is kept. A cursor lands where
as many tokens lie before it as are kept of those before it in the whole row. On a token that is
kept the same token is found there, and cursors on such tokens land in the order they stand in; a
run of separators that is passed in the whole row is passed in the collapsed one too.
-/
namespace Sharp.Grammar

section Lists

variable {α β : Type} {blank : α → Bool} {items front back : List α} {item : α}

/-- Drops every blank item that stands directly behind a blank one. -/
def collapse (blank : α → Bool) (items : List α) : List α :=
  items.destutter fun a b => ¬(blank a = true ∧ blank b = true)

theorem collapse_snoc (blank : α → Bool) (items : List α) (item : α) :
    collapse blank (items ++ [item]) =
      if items.getLast?.any blank = true ∧ blank item = true then collapse blank items
      else collapse blank items ++ [item] := by
  -- The last item kept is blank just if the last one is.
  have behind (first : α) (rest : List α) :
      (rest ++ [item]).destutter' (fun a b => ¬(blank a = true ∧ blank b = true)) first =
        if (first :: rest).getLast?.any blank = true ∧ blank item = true then
          rest.destutter' (fun a b => ¬(blank a = true ∧ blank b = true)) first
        else rest.destutter' (fun a b => ¬(blank a = true ∧ blank b = true)) first ++ [item] := by
    induction rest generalizing first with
    | nil => by_cases both : blank first = true ∧ blank item = true <;> simp [both]
    | cons second rest ih =>
      by_cases dropped : blank first = true ∧ blank second = true
      · have same : (first :: rest).getLast?.any blank =
            (first :: second :: rest).getLast?.any blank := by
          cases rest <;> simp [dropped]
        rw [List.cons_append, List.destutter'_cons_neg _ (not_not.2 dropped), ih, same,
          List.destutter'_cons_neg _ (not_not.2 dropped)]
      · rw [List.cons_append, List.destutter'_cons_pos _ dropped, ih,
          List.destutter'_cons_pos _ dropped, List.getLast?_cons_cons]
        split <;> rfl
  cases items with
  | nil => simp [collapse]
  | cons first rest => exact behind first rest

theorem prefix_collapse_append (blank : α → Bool) (front back : List α) :
    collapse blank front <+: collapse blank (front ++ back) := by
  induction back using List.reverseRecOn with
  | nil => simp
  | append_singleton back item ih =>
    rw [← List.append_assoc, collapse_snoc]
    split
    · exact ih
    · exact ih.trans (List.prefix_append _ _)

theorem map_collapse (f : α → β) (blank : β → Bool) (items : List α) :
    (collapse (fun item => blank (f item)) items).map f = collapse blank (items.map f) :=
  List.map_destutter fun _ _ _ _ => Iff.rfl

theorem length_collapse_le (blank : α → Bool) (items : List α) :
    (collapse blank items).length ≤ items.length :=
  (List.destutter_sublist _ items).length_le

end Lists

namespace Kinds

open Sharp.Grammar.Parser

variable {kinds : Kinds} {c d : Cursor}

def collapsed (kinds : Kinds) : Kinds := (collapse isNewline kinds.toList).toArray

/-- How many tokens are kept of those before a cursor. -/
def landing (kinds : Kinds) (c : Cursor) : Cursor :=
  ⟨(collapse isNewline (kinds.toList.take c.index)).length⟩

/-- A separator stands directly before the cursor. -/
abbrev Behind (kinds : Kinds) (c : Cursor) : Prop :=
  (kinds.toList.take c.index).getLast?.any isNewline = true

/-- The token at the cursor is kept. -/
structure Kept (kinds : Kinds) (c : Cursor) : Prop where
  inside : c.index < kinds.size
  first : kinds.Behind c → kinds.kindAt c ≠ .newline

/-- There is always a token behind one that does not end the text. -/
theorem index_next_lt (ends : kinds.kindAt ⟨kinds.size - 1⟩ = .eof)
    (more : kinds.kindAt c ≠ .eof) : c.next.index < kinds.size := by
  have inside := index_lt_of_ne_eof more
  by_contra last
  obtain rfl : c = ⟨kinds.size - 1⟩ := by
    rw [Cursor.next_index] at last
    exact congrArg Cursor.mk (by omega)
  exact more ends

theorem take_next (inside : c.index < kinds.size) :
    kinds.toList.take c.next.index = kinds.toList.take c.index ++ [kinds.kindAt c] := by
  have found : kinds.kindAt c = kinds[c.index] := by simp [kindAt, inside]
  rw [Cursor.next_index, found, List.take_succ_eq_append_getElem (by simpa using inside)]
  simp

theorem behind_next (inside : c.index < kinds.size) :
    kinds.Behind c.next ↔ kinds.kindAt c = .newline := by
  rw [Behind, take_next inside]
  simp

theorem Kept.collapse_eq (kept : kinds.Kept c) :
    collapse isNewline (kinds.toList.take c.next.index) =
      collapse isNewline (kinds.toList.take c.index) ++ [kinds.kindAt c] := by
  have stays : ¬(kinds.Behind c ∧ isNewline (kinds.kindAt c) = true) := by
    intro dropped
    exact kept.first dropped.1 (isNewline_iff.1 dropped.2)
  rw [take_next kept.inside, collapse_snoc, if_neg stays]

theorem Kept.landing_next (kept : kinds.Kept c) :
    kinds.landing c.next = (kinds.landing c).next := by
  rw [landing, kept.collapse_eq, List.length_append]
  rfl

theorem landing_next_of_dropped (inside : c.index < kinds.size) (behind : kinds.Behind c)
    (separator : kinds.kindAt c = .newline) : kinds.landing c.next = kinds.landing c := by
  have dropped : kinds.Behind c ∧ isNewline (kinds.kindAt c) = true :=
    ⟨behind, isNewline_iff.2 separator⟩
  rw [landing, take_next inside, collapse_snoc, if_pos dropped, landing]

theorem landing_le (before : c.index ≤ d.index) :
    (kinds.landing c).index ≤ (kinds.landing d).index := by
  obtain ⟨rest, split⟩ := List.take_prefix_take_left (l := kinds.toList) before
  have kept := (prefix_collapse_append isNewline (kinds.toList.take c.index) rest).length_le
  rwa [split] at kept

theorem Kept.landing_lt (kept : kinds.Kept c) (before : c.index < d.index) :
    (kinds.landing c).index < (kinds.landing d).index := by
  have next : (kinds.landing c.next).index ≤ (kinds.landing d).index := landing_le before
  rw [kept.landing_next, Cursor.next_index] at next
  omega

theorem Kept.landing_le_iff (kept : kinds.Kept c) :
    (kinds.landing d).index ≤ (kinds.landing c).index ↔ d.index ≤ c.index := by
  constructor
  · intro ordered
    by_contra later
    have further := kept.landing_lt (Nat.lt_of_not_le later)
    omega
  · exact landing_le

theorem Kept.kindAt_landing (kept : kinds.Kept c) :
    kinds.collapsed.kindAt (kinds.landing c) = kinds.kindAt c := by
  have within := prefix_collapse_append isNewline (kinds.toList.take c.next.index)
    (kinds.toList.drop c.next.index)
  rw [List.take_append_drop, kept.collapse_eq] at within
  obtain ⟨rest, whole⟩ := within
  simp [collapsed, ← whole, kindAt, landing]

/-- A token that neither separates nor ends the text has the next one kept. -/
theorem Kept.next (ends : kinds.kindAt ⟨kinds.size - 1⟩ = .eof) (kept : kinds.Kept c)
    (more : kinds.kindAt c ≠ .eof) (other : kinds.kindAt c ≠ .newline) : kinds.Kept c.next :=
  ⟨index_next_lt ends more, fun behind => absurd ((behind_next kept.inside).1 behind) other⟩

end Kinds

namespace Parser

variable {kinds other : Kinds} {c d : Cursor} {n : Nat}
  (ends : kinds.kindAt ⟨kinds.size - 1⟩ = .eof)

include ends

/-- Separators behind a separator are all dropped. -/
theorem landing_of_skips (skips : Skips kinds c n d) (inside : c.index < kinds.size)
    (behind : kinds.Behind c) : kinds.landing d = kinds.landing c ∧ kinds.Kept d := by
  induction n generalizing c with
  | zero =>
    obtain ⟨here, other⟩ := skips
    obtain rfl := Kinds.reads_nil.1 here
    exact ⟨rfl, inside, fun _ => other⟩
  | succ n ih =>
    obtain ⟨⟨separator, more, reads⟩, other⟩ := skips
    have next : c.next.index < kinds.size := Kinds.index_next_lt ends (separator ▸ more)
    obtain ⟨lands, kept⟩ := ih ⟨reads, other⟩ next ((Kinds.behind_next inside).2 separator)
    exact ⟨lands.trans (Kinds.landing_next_of_dropped inside behind separator), kept⟩

/-- Where separators are passed in a row they are passed in the collapsed one, and if the first
    token is kept, there are some in both or in none. -/
theorem skips_landing (same : ∀ c, kinds.Kept c → other.kindAt (kinds.landing c) = kinds.kindAt c)
    (skips : Skips kinds c n d) (inside : c.index < kinds.size) :
    kinds.Kept d ∧ ∃ m, Skips other (kinds.landing c) m (kinds.landing d) ∧
      (kinds.Kept c → (m = 0 ↔ n = 0)) := by
  by_cases behind : kinds.Behind c
  · obtain ⟨lands, kept⟩ := landing_of_skips ends skips inside behind
    have stops : other.kindAt (kinds.landing d) ≠ .newline := same d kept ▸ skips.2
    refine ⟨kept, 0, ⟨lands, stops⟩, fun here => ?_⟩
    cases n with
    | zero => simp
    | succ n => exact absurd skips.1.1 (here.first behind)
  · have here : kinds.Kept c := ⟨inside, fun after => absurd after behind⟩
    cases n with
    | zero =>
      obtain ⟨stays, stops⟩ := skips
      obtain rfl := Kinds.reads_nil.1 stays
      exact ⟨here, 0, ⟨rfl, same d here ▸ stops⟩, fun _ => Iff.rfl⟩
    | succ n =>
      obtain ⟨⟨separator, more, reads⟩, stops⟩ := skips
      have next : c.next.index < kinds.size := Kinds.index_next_lt ends (separator ▸ more)
      obtain ⟨lands, kept⟩ :=
        landing_of_skips ends ⟨reads, stops⟩ next ((Kinds.behind_next inside).2 separator)
      have first : other.kindAt (kinds.landing c) = .newline := (same c here).trans separator
      have passed : other.Reads (kinds.landing c) (List.replicate 1 .newline) (kinds.landing d) :=
        ⟨first, more, lands.trans here.landing_next⟩
      exact ⟨kept, 1, ⟨passed, same d kept ▸ stops⟩, by simp⟩

end Parser

end Sharp.Grammar
