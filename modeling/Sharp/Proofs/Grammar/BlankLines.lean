import Sharp.Proofs.Grammar.Mirroring
import Sharp.Proofs.Grammar.Relabelling
import Sharp.Proofs.Grammar.Shifting

/-!
Blank lines. A program is read alike from a row and from the row without its blank lines, which is
filled up behind its end until it is as long as the whole one. What is said against a token is said
against the same token in both rows, so an error has one place and one text.
-/
namespace Sharp.Grammar

/-- A row as long as another one, with final tokens behind its end. -/
def Kinds.padded (kinds : Kinds) (size : Nat) : Kinds :=
  (kinds.toList ++ List.replicate (size - kinds.size) TokenKind.eof).toArray

section Padding

variable {kinds : Kinds} {size : Nat}

theorem Kinds.size_padded (shorter : kinds.size ≤ size) : (kinds.padded size).size = size := by
  simp only [padded, List.size_toArray, List.length_append, List.length_replicate,
    Array.length_toList]
  omega

theorem Kinds.kindAt_padded (c : Cursor) : (kinds.padded size).kindAt c = kinds.kindAt c := by
  by_cases within : c.index < kinds.size
  · simp [padded, kindAt, List.getElem?_append_left, within]
  · have beyond : kinds.size ≤ c.index := Nat.le_of_not_lt within
    rw [eof_of_size_le beyond]
    simp [padded, kindAt, List.getElem?_append_right, List.getElem?_replicate, beyond]
    split <;> rfl

end Padding

/-- Moving a tree over no tokens changes nothing but what is left out of account. -/
theorem Mirrors.of_later {kinds : Kinds} {x y : Outcome Tree}
    (mirrors : Mirrors kinds (Same Node.erase) x (y.later 0 (Tree.later 0))) :
    Mirrors kinds (Same Node.erase) x y := by
  generalize moved : y.later 0 (Tree.later 0) = z at mirrors
  cases mirrors with
  | @error said d kept =>
    rcases y with ⟨complaint, e⟩ | parsed
    · have plain : (Except.error ⟨complaint, e⟩ : Outcome Tree) =
        .error ⟨said, kinds.landing d⟩ := moved
      cases plain
      exact .error kept
    · cases moved
  | @ok a b d related kept =>
    rcases y with error | ⟨tree, e⟩
    · cases moved
    · have plain : (Except.ok ⟨tree.later 0, e⟩ : Outcome Tree) = .ok ⟨b, kinds.landing d⟩ := moved
      cases plain
      exact .ok (related.trans (Node.erase_map _ tree)) kept

namespace Rule

/-- All calls fail at one token, as calls do that are nested too deeply. -/
def failingAt (c : Cursor) : Answers := fun _ _ => .error ⟨.nestingTooDeep, c⟩

section Runs

variable {kinds other : Kinds} (ends : kinds.kindAt ⟨kinds.size - 1⟩ = .eof)
  (nonempty : 0 < kinds.size)

include ends nonempty

theorem kept_last : kinds.Kept ⟨kinds.size - 1⟩ :=
  ⟨Nat.sub_lt nonempty Nat.one_pos, fun _ => by simp [ends]⟩

/-- The calls nested too deeply may all be said to fail at the last token, which is kept. -/
theorem answer_mirrors (size : other.size = kinds.size)
    (same : ∀ c, kinds.Kept c → other.kindAt (kinds.landing c) = kinds.kindAt c) (limit : Limit)
    (depth : Nat) {rule : Rule} {c : Cursor} (opens : kinds.Opens rule c) :
    Mirrors kinds rule.Twins (answer kinds limit depth rule c)
      (answer other limit depth rule (kinds.landing c)) := by
  have within (calls depth : Nat) (rule : Rule) (c : Cursor) (opens : kinds.Opens rule c) :
      Mirrors kinds rule.Twins
        (answerFrom (failingAt ⟨kinds.size - 1⟩) kinds limit calls depth rule c)
        (answerFrom (failingAt (kinds.landing ⟨kinds.size - 1⟩)) other limit calls depth rule
          (kinds.landing c)) := by
    induction calls generalizing depth rule c with
    | zero => exact .error (kept_last ends nonempty)
    | succ calls ih =>
      let w : Mirror := ⟨kinds, _, other, _, ends, size, same, ih (rule.depthInside depth)⟩
      rw [answerFrom, answerFrom, size]
      by_cases admitted : rule.admitted limit depth = true
      · simp only [admitted, if_true]
        exact parser_mirrored (w := w) opens
      · -- A block is never refused.
        have guarded : rule ≠ .block := by
          rintro rfl
          simp [Rule.admitted, Rule.guarded] at admitted
        simp only [admitted]
        exact .error (opens.2 guarded)
  have enough : enoughCalls other = enoughCalls kinds := by simp only [enoughCalls, size]
  rw [← answerFrom_eq (weight_lt_enoughCalls kinds rule c),
    ← answerFrom_eq (weight_lt_enoughCalls other rule (kinds.landing c)), enough]
  exact within _ depth rule c opens

end Runs

end Rule

section Programs

variable {kinds : Kinds} (ends : kinds.kindAt ⟨kinds.size - 1⟩ = .eof)
  (nonempty : 0 < kinds.size) (limit : Limit)

include ends nonempty

/-- Filled up with final tokens, the collapsed row is as long as the whole one. -/
theorem block_mirrors (depth : Nat) {c : Cursor} (inside : c.index < kinds.size) :
    Mirrors kinds (Same Node.erase) (Rule.answer kinds limit depth .block c)
      (Rule.answer kinds.collapsed limit depth .block (kinds.landing c)) := by
  have shorter : kinds.collapsed.size ≤ kinds.size := by
    simpa [Kinds.collapsed] using length_collapse_le Parser.isNewline kinds.toList
  have size := Kinds.size_padded shorter
  have opens : kinds.Opens .block c := ⟨inside, fun other => absurd rfl other⟩
  have mirrors := Rule.answer_mirrors ends nonempty size
    (fun c kept => (Kinds.kindAt_padded _).trans kept.kindAt_landing) limit depth opens
  have moved := @Rule.answer_later _ _ 0 limit Kinds.kindAt_padded
    (Nat.le_trans shorter (Nat.le_of_eq size.symm)) depth .block (kinds.landing c)
  exact Mirrors.of_later (moved ▸ mirrors)

open Grammar.Parser in
theorem program_mirrors (depth : Nat) :
    Mirrors kinds (Same Node.erase) (program.eval kinds (Rule.answer kinds limit depth) .start)
      (program.eval kinds.collapsed (Rule.answer kinds.collapsed limit depth) .start) := by
  have block := block_mirrors ends nonempty limit depth (c := .start) nonempty
  have begins : kinds.landing .start = .start := rfl
  rw [begins] at block
  simp only [program, bind_eq, eval_bind, eval_read .block]
  generalize Rule.answer kinds limit depth .block .start = x at block ⊢
  generalize Rule.answer kinds.collapsed limit depth .block .start = y at block ⊢
  cases block with
  | error kept => exact .error kept
  | ok related kept =>
    simp only [peek, eval, kept.kindAt_landing]
    split
    · exact .ok related kept
    · exact .error kept

/-- A row and the collapsed row are read alike, or not read for the same reason and on account of
    the same token. -/
theorem parseKinds_collapsed (s : Session) :
    (∃ tree twin, (parseKinds kinds limit s).1 = .ok tree ∧
      (parseKinds kinds.collapsed limit s).1 = .ok twin ∧ twin.erase = tree.erase) ∨
    ∃ complaint c, kinds.Kept c ∧ (parseKinds kinds limit s).1 = .error ⟨complaint, c⟩ ∧
      (parseKinds kinds.collapsed limit s).1 = .error ⟨complaint, kinds.landing c⟩ := by
  have mirrors := program_mirrors ends nonempty limit s.depth
  rw [parseKinds_outcome, parseKinds_outcome]
  generalize Parser.program.eval kinds _ .start = x at mirrors ⊢
  generalize Parser.program.eval kinds.collapsed _ .start = y at mirrors ⊢
  cases mirrors with
  | ok related kept => exact .inl ⟨_, _, rfl, rfl, related.symm⟩
  | error kept => exact .inr ⟨_, _, kept, rfl, rfl⟩

end Programs

end Grammar

open Grammar

/-- Only the first of every run of separators is kept. -/
def withoutBlankLines (tokens : List Token) : List Token :=
  collapse (fun t => Parser.isNewline t.kind) tokens

section Tokens

variable {tokens : List Token} {final : Token}

theorem withoutBlankLines_concat (ends : final.kind = .eof) (front : List Token) :
    withoutBlankLines (front ++ [final]) = withoutBlankLines front ++ [final] := by
  have other : ¬((front.getLast?.any fun t => Parser.isNewline t.kind) = true ∧
      Parser.isNewline final.kind = true) := by
    simp [ends]
  rw [withoutBlankLines, collapse_snoc, if_neg other]
  rfl

theorem kinds_withoutBlankLines (ends : final.kind = .eof) (front : List Token) :
    (TokenStream.ofList (withoutBlankLines (front ++ [final]))).kinds =
      (TokenStream.ofList (front ++ [final])).kinds.collapsed := by
  have mapped := map_collapse Token.kind Parser.isNewline (front ++ [final])
  rw [TokenStream.kinds_of_ends ends, withoutBlankLines_concat ends,
    TokenStream.kinds_of_ends ends, Kinds.collapsed, ← mapped, ← withoutBlankLines_concat ends]
  rfl

/-- A cursor at a token that is kept splits the row there. -/
theorem split_of_kept {front : List Token} (ends : final.kind = .eof) {c : Cursor}
    (kept : (TokenStream.ofList (front ++ [final])).kinds.Kept c) :
    ∃ before t after, front ++ [final] = before ++ t :: after ∧ c = ⟨before.length⟩ ∧
      withoutBlankLines (before ++ [t]) = withoutBlankLines before ++ [t] ∧
      (TokenStream.ofList (front ++ [final])).kinds.landing c =
        ⟨(withoutBlankLines before).length⟩ := by
  obtain ⟨inside, first⟩ := kept
  rw [TokenStream.kinds_of_ends ends] at inside first ⊢
  generalize front ++ [final] = tokens at inside first ⊢
  have within : c.index < tokens.length := by simpa using inside
  have cut : (tokens.map Token.kind).take c.index = (tokens.take c.index).map Token.kind :=
    List.map_take.symm
  have stays : ¬(((tokens.take c.index).getLast?.any fun t => Parser.isNewline t.kind) = true ∧
      Parser.isNewline tokens[c.index].kind = true) := by
    intro dropped
    obtain ⟨behind, separator⟩ := dropped
    refine first ?_ ?_
    · rw [Kinds.Behind, List.toList_toArray, cut, List.getLast?_map, Option.any_map]
      exact behind
    · simpa [Kinds.kindAt, within] using separator
  refine ⟨tokens.take c.index, tokens[c.index], tokens.drop (c.index + 1), ?_, ?_, ?_, ?_⟩
  · simp
  · rw [List.length_take_of_le (Nat.le_of_lt within)]
  · rw [withoutBlankLines, collapse_snoc, if_neg stays]
    rfl
  · rw [Kinds.landing, cut, ← map_collapse, List.length_map]
    rfl

end Tokens

/-- Under any limit, a row and the row without its blank lines are read as trees of one shape, or
    the same is said about the same token, which is kept. -/
theorem parse_withoutBlankLines (limit : Limit) (tokens : List Token)
    (ends : tokens.getLast?.map Token.kind = some .eof) :
    let whole := TokenStream.ofList tokens
    let lean := TokenStream.ofList (withoutBlankLines tokens)
    (∃ tree twin, (whole.parse limit .start).1 = .ok tree ∧
      (lean.parse limit .start).1 = .ok twin ∧ twin.erase = tree.erase) ∨
    ∃ before t after complaint, tokens = before ++ t :: after ∧
      withoutBlankLines (before ++ [t]) = withoutBlankLines before ++ [t] ∧
      (∃ rest, withoutBlankLines tokens = withoutBlankLines before ++ t :: rest) ∧
      (parseKinds whole.kinds limit .start).1 = .error ⟨complaint, ⟨before.length⟩⟩ ∧
      (parseKinds lean.kinds limit .start).1 =
        .error ⟨complaint, ⟨(withoutBlankLines before).length⟩⟩ ∧
      let d : Diagnostic := ⟨.invalidSyntax, complaint.message, t.span⟩
      (whole.parse limit .start).1 = .error d ∧ (lean.parse limit .start).1 = .error d := by
  intro whole lean
  obtain ⟨final, found, finishes⟩ := Option.map_eq_some_iff.1 ends
  obtain ⟨front, rfl⟩ := List.getLast?_eq_some_iff.1 found
  have squeezed : lean.kinds = whole.kinds.collapsed := kinds_withoutBlankLines finishes front
  have size : whole.kinds.size = front.length + 1 := by
    simp [whole, TokenStream.kinds_of_ends finishes]
  have last : whole.kinds.kindAt ⟨whole.kinds.size - 1⟩ = .eof := by
    rw [size]
    simp [whole, TokenStream.kinds_of_ends finishes, Kinds.kindAt, finishes]
  rcases parseKinds_collapsed last (by omega) limit .start with accepted | rejected
  · obtain ⟨tree, twin, parsed, parsedToo, same⟩ := accepted
    rw [← squeezed] at parsedToo
    refine .inl ⟨_, _, TokenStream.parse_eq_ok.2 ⟨tree, parsed, rfl⟩,
      TokenStream.parse_eq_ok.2 ⟨twin, parsedToo, rfl⟩, ?_⟩
    rw [Node.erase_map, Node.erase_map, same]
  · obtain ⟨complaint, c, kept, fails, failsToo⟩ := rejected
    obtain ⟨before, t, after, split, rfl, stays, lands⟩ := split_of_kept finishes kept
    have prefixed : withoutBlankLines before ++ [t] <+: withoutBlankLines (front ++ [final]) := by
      have kept := prefix_collapse_append (fun t => Parser.isNewline t.kind) (before ++ [t]) after
      rw [List.append_assoc, List.singleton_append, ← split] at kept
      exact stays ▸ kept
    obtain ⟨rest, squeezedSplit⟩ := prefixed
    rw [List.append_assoc, List.singleton_append] at squeezedSplit
    rw [← squeezed, lands] at failsToo
    refine .inr ⟨before, t, after, complaint, split, stays, ⟨rest, squeezedSplit.symm⟩, fails,
      failsToo, ?_, ?_⟩
    · refine TokenStream.parse_eq_error.2 ⟨_, fails, ?_⟩
      rw [TokenStream.diagnose, TokenStream.tokenAt_of_split finishes split]
    · refine TokenStream.parse_eq_error.2 ⟨_, failsToo, ?_⟩
      have there : lean.tokenAt ⟨(withoutBlankLines before).length⟩ = t := by
        have found := TokenStream.tokenAt_of_split finishes
          ((withoutBlankLines_concat finishes front).symm.trans squeezedSplit.symm)
        rwa [← withoutBlankLines_concat finishes] at found
      rw [TokenStream.diagnose, there]

/-- Of two pairs of separators one each is kept. The closing bracket is what does not fit in both
    rows, although the statement that was tried there has been taken back. -/
theorem parse_withoutBlankLines_taken_back :
    let place (i : Nat) : Position := ⟨i, 0, i, ⟨"shell", ";;1;;)"⟩⟩
    let token (i : Nat) (kind : TokenKind) : Token := ⟨kind, place i, place (i + 1)⟩
    let last : Token := .finish (place 6)
    let tokens : List Token := [token 0 .newline, token 1 .newline, token 2 (.int 1),
      token 3 .newline, token 4 .newline, token 5 (.symbol .closeRound), last]
    tokens.getLast?.map Token.kind = some .eof ∧
      withoutBlankLines tokens = [token 0 .newline, token 2 (.int 1), token 3 .newline,
        token 5 (.symbol .closeRound), last] ∧
      ((TokenStream.ofList (withoutBlankLines tokens)).parse standardLimit .start).1 =
        .error ⟨.invalidSyntax, "Token cannot appear after previous tokens",
          ⟨place 5, place 6⟩⟩ := by
  intro place token last tokens
  have ends : tokens.getLast?.map Token.kind = some .eof := by rfl
  have whole : ((TokenStream.ofList tokens).parse standardLimit .start).1 =
      .error ⟨.invalidSyntax, "Token cannot appear after previous tokens",
        ⟨place 5, place 6⟩⟩ := (TokenStream.parse_outcome _ _ _).trans (by cbv)
  refine ⟨ends, rfl, ?_⟩
  rcases parse_withoutBlankLines standardLimit tokens ends with accepted | rejected
  · obtain ⟨tree, _, parsed, _⟩ := accepted
    cases whole.symm.trans parsed
  · obtain ⟨_, _, _, _, _, _, _, _, _, fails, failsToo⟩ := rejected
    exact failsToo.trans (fails.symm.trans whole)

end Sharp
