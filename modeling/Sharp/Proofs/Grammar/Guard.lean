import Sharp.Proofs.Grammar.Course
import Sharp.Proofs.Grammar.Unhindered

/-!
The guard against deep nesting. Its counter is back where it was whenever a rule is done, so what
comes out of a text and what is noted on the way is the same each time the text is read. A guard
that refuses nothing cannot be told from a looser one, nor from none.
-/
namespace Sharp

namespace Grammar

/-- Of the session only the depth counts for what comes out and for what is noted besides. -/
def Steady {α : Type} (run : Session → α × Session) : Prop :=
  ∀ s t : Session, t.depth = s.depth → ∃ noted : Array Event, (run t).1 = (run s).1 ∧
    (run s).2.events = s.events ++ noted ∧ (run t).2.events = t.events ++ noted

namespace Parser

variable {α : Type} {kinds : Kinds} {runner : Runner}

theorem exec_steady (keeps : ∀ rule c s, (runner rule c s).2.depth = s.depth)
    (steady : ∀ rule c, Steady (runner rule c)) (p : Parser α) (c : Cursor) :
    Steady (p.exec kinds runner c) := by
  intro s t same
  induction p generalizing c s t with
  | done => exact ⟨#[], rfl, Array.append_empty.symm, Array.append_empty.symm⟩
  | raise => exact ⟨#[], rfl, Array.append_empty.symm, Array.append_empty.symm⟩
  | look next ih => exact ih c (kinds.kindAt c) c s t same
  | advance next ih => exact ih c.next s t same
  | attempt rule next ih =>
    obtain ⟨front, outcome, here, there⟩ := steady rule c s t same
    have level := (keeps rule c t).trans (same.trans (keeps rule c s).symm)
    simp only [exec]
    rcases ran : runner rule c s with ⟨result, u⟩
    rcases ranToo : runner rule c t with ⟨other, v⟩
    rw [ran, ranToo] at outcome level
    rw [ran] at here
    rw [ranToo] at there
    obtain rfl : other = result := outcome
    cases other with
    | ok parsed =>
      obtain ⟨back, last, first, second⟩ := ih (.ok parsed.value) parsed.cursor u v level
      refine ⟨front ++ back, last, ?_, ?_⟩
      · rw [first, here, Array.append_assoc]
      · rw [second, there, Array.append_assoc]
    | error error =>
      obtain ⟨back, last, first, second⟩ := ih (.error error) c u v level
      refine ⟨front ++ back, last, ?_, ?_⟩
      · rw [first, here, Array.append_assoc]
      · rw [second, there, Array.append_assoc]
  | note event next ih =>
    obtain ⟨back, last, first, second⟩ := ih c (s.note event) (t.note event) same
    refine ⟨#[event] ++ back, last, ?_, ?_⟩
    · rw [exec, first, Session.note, Array.push_eq_append, Array.append_assoc]
    · rw [exec, second, Session.note, Array.push_eq_append, Array.append_assoc]

end Parser

namespace Rule

variable {kinds : Kinds} {limit : Limit}

theorem refuse_steady (rule : Rule) (c : Cursor) : Steady (refuse rule c) := by
  intro s t same
  refine ⟨#[.nestingLimit c (s.depth + 1)], rfl, Array.push_eq_append, ?_⟩
  rw [← same]
  exact Array.push_eq_append

theorem run_steady (calls : Nat) (rule : Rule) (c : Cursor) :
    Steady (run kinds limit calls rule c) := by
  induction calls generalizing rule c with
  | zero => exact refuse_steady rule c
  | succ calls ih =>
    have body : Steady ((rule.parser kinds.size).exec kinds (run kinds limit calls) c) :=
      Parser.exec_steady (run_depth kinds limit calls) ih _ c
    intro s t same
    simp only [run, same]
    split
    · split
      · exact body s.enter t.enter (congrArg (· + 1) same)
      · exact refuse_steady rule c s t same
    · exact body s t same

/-- Under a limit the depth is never below that of the start, and never above the limit. -/
theorem throughout_depth {most : Nat} (calls : Nat) (rule : Rule) (c : Cursor) (s : Session)
    (low : s.depth ≤ most) :
    rule.Throughout kinds (some most) (fun _ t => s.depth ≤ t.depth ∧ t.depth ≤ most) calls c
      s := by
  refine throughout_of_onward (fun _ _ t u _ same between => ?_) (fun _ t allowed between => ?_)
    calls rule ⟨Nat.le_refl _, low⟩
  · rwa [same]
  · exact ⟨Nat.le_succ_of_le between.1, of_decide_eq_true allowed⟩

end Rule

namespace TokenStream

variable {stream : TokenStream} {limit : Limit}

theorem parse_depth (s : Session) : (stream.parse limit s).2.depth = s.depth := by
  rw [parse_session]
  exact Parser.exec_depth stream.kinds _ (Rule.run_depth stream.kinds limit _) Parser.program
    .start s

theorem parse_steady : Steady (stream.parse limit) := by
  intro s t same
  obtain ⟨noted, outcome, here, there⟩ := Parser.exec_steady (Rule.run_depth stream.kinds limit _)
    (Rule.run_steady (Rule.enoughCalls stream.kinds)) Parser.program .start s t same
  rw [parse_eq, parse_eq]
  refine ⟨noted, ?_, here, there⟩
  simp only [parseKinds, outcome]

end TokenStream

/-- A report without notices of refusals is one of a run in which nothing was refused. -/
theorem unhindered_of_notices {tokens : List Token}
    (quiet : ∀ c depth, Notice.parsing (.nestingLimit c depth) ∉ (parse tokens).notices) :
    (parseKinds (TokenStream.ofList tokens).kinds standardLimit .start).2.Unhindered := by
  rw [← TokenStream.parse_session]
  intro event noted
  cases event with
  | rolledBack => rfl
  | nestingLimit c depth =>
    refine absurd ?_ (quiet c depth)
    exact List.mem_append_left _ (List.mem_map_of_mem (Array.mem_toList_iff.2 noted))

theorem standardLimit_allows {looser : Limit} (loosens : ∀ most ∈ looser, 600 ≤ most) (depth : Nat)
    (allowed : standardLimit.allows depth = true) : looser.allows depth = true := by
  cases looser with
  | none => rfl
  | some most =>
    have within : depth ≤ 600 := of_decide_eq_true allowed
    exact decide_eq_true (Nat.le_trans within (loosens most rfl))

end Grammar

open Grammar

/-- Whether a rule succeeds or fails, it leaves the depth as it was, and on the way the depth never
    passes the limit. So a row that is read once more has the same outcome and notes the same. -/
theorem rules_restore_depth (tokens : List Token) (rule : Rule) (c : Cursor) (s : Session)
    (low : s.depth ≤ 600) :
    let stream := TokenStream.ofList tokens
    let calls := Rule.enoughCalls stream.kinds
    ((stream.read standardLimit rule c).run.run s).2 =
      (Rule.run stream.kinds standardLimit calls rule c s).2 ∧
    ((stream.read standardLimit rule c).run.run s).2.depth = s.depth ∧
    rule.Throughout stream.kinds standardLimit (fun _ t => s.depth ≤ t.depth ∧ t.depth ≤ 600) calls
      c s ∧
    let first := stream.parse standardLimit .start
    let second := stream.parse standardLimit first.2
    first.1 = (parse tokens).outcome ∧ second.1 = first.1 ∧
      second.2.events = first.2.events ++ first.2.events ∧
      first.2.depth = 0 ∧ second.2.depth = 0 := by
  intro stream calls
  refine ⟨TokenStream.read_session, ?_, Rule.throughout_depth calls rule c s low, ?_⟩
  · rw [TokenStream.read_session]
    exact Rule.run_depth stream.kinds standardLimit calls rule c s
  intro first second
  have back : first.2.depth = 0 := TokenStream.parse_depth .start
  obtain ⟨noted, outcome, here, there⟩ :=
    @TokenStream.parse_steady stream standardLimit .start first.2 back
  have once : first.2.events = noted := here.trans Array.empty_append
  refine ⟨rfl, outcome, ?_, back, (TokenStream.parse_depth first.2).trans back⟩
  rw [once] at there ⊢
  exact there

/-- A statement one level below the limit is refused, and the next row starts from the top again. -/
theorem rules_restore_depth_refused :
    let place : Span := .empty (.start ⟨"", ""⟩)
    let tokens : List Token := [.int 1, .newline, .keyword .var, .eof].map fun kind => ⟨kind, place⟩
    let stream := TokenStream.ofList tokens
    let s : Session := ⟨599, 599, #[]⟩
    let refused := (stream.read standardLimit .statement .start).run.run s
    let first := stream.parse standardLimit .start
    s.depth ≤ 600 ∧ refused.1.isOk = false ∧
      refused.2.events = #[.nestingLimit .start 601] ∧ refused.2.depth = 599 ∧
      first.2.events = #[.rolledBack ⟨2⟩ 1] ∧
      (stream.parse standardLimit first.2).2.events = #[.rolledBack ⟨2⟩ 1, .rolledBack ⟨2⟩ 1] := by
  intro place tokens stream s refused first
  have low : s.depth ≤ 600 := by decide
  obtain ⟨_, restored, _, _, _, twice, _⟩ := rules_restore_depth tokens .statement .start s low
  have noted : first.2.events = #[.rolledBack ⟨2⟩ 1] := by decide +kernel
  refine ⟨low, by decide +kernel, by decide +kernel, restored, noted, ?_⟩
  rw [twice]
  exact congrArg (fun events => events ++ events) noted

/-- If nothing is refused, the same comes out and the same is noted under every looser limit and
    under none. -/
theorem parse_of_unrefused (tokens : List Token) (looser : Limit)
    (loosens : ∀ most ∈ looser, 600 ≤ most)
    (quiet : ∀ c depth, Notice.parsing (.nestingLimit c depth) ∉ (parse tokens).notices) :
    let (outcome, after) := (TokenStream.ofList tokens).parse looser .start
    outcome = (parse tokens).outcome ∧
      after.events.toList.map .parsing ++ [conclusion outcome] = (parse tokens).notices := by
  have same : (TokenStream.ofList tokens).parse looser .start =
      (TokenStream.ofList tokens).parse standardLimit .start := by
    rw [TokenStream.parse_eq, TokenStream.parse_eq,
      parseKinds_of_unhindered (standardLimit_allows loosens) (unhindered_of_notices quiet)]
  rw [same]
  exact ⟨rfl, rfl⟩

/-- The statement begun with `VAR` is taken back without a guard as well. -/
theorem parse_of_unrefused_rolled_back :
    let place : Span := .empty (.start ⟨"", ""⟩)
    let tokens : List Token := [.int 1, .newline, .keyword .var, .eof].map fun kind => ⟨kind, place⟩
    let notices : List Notice := [.parsing (.rolledBack ⟨2⟩ 1), .parseFailed "Invalid Syntax" 1]
    let (outcome, after) := (TokenStream.ofList tokens).parse none .start
    (∀ c depth, Notice.parsing (.nestingLimit c depth) ∉ (parse tokens).notices) ∧
      outcome = .error ⟨.invalidSyntax, "Token cannot appear after previous tokens", place⟩ ∧
      after.events.toList.map .parsing ++ [conclusion outcome] = notices := by
  intro place tokens notices
  have noted : (parse tokens).notices = notices := by decide +kernel
  have quiet : ∀ c depth, Notice.parsing (.nestingLimit c depth) ∉ (parse tokens).notices := by
    simp [noted, notices]
  have fails : (parse tokens).outcome =
      .error ⟨.invalidSyntax, "Token cannot appear after previous tokens", place⟩ :=
    (parse_outcome _).trans (by cbv)
  obtain ⟨same, alike⟩ := parse_of_unrefused tokens none (by simp) quiet
  exact ⟨quiet, same.trans fails, alike.trans noted⟩

end Sharp
