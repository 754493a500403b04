import Sharp.Proofs.Grammar.Success

/-!
What becomes of a refusal. A rule that is refused fails at its first token, where its caller may say
what it expected instead, so that the message is lost. A rule calls others at its own first token or
right behind a token that it passed itself, and that token decides what is said. Only a value behind
`RETURN` and a statement behind a separator are tried without passing the error on.
-/
namespace Sharp.Grammar

namespace Rule

/-- What is said if nesting gets too deep at the first token of a rule, either because the rule is
    refused itself, being called at full depth, or further inside. -/
def refusal (rule : Rule) (full : Bool) : Complaint :=
  match rule with
  | .block | .statement | .body | .closedBody => .expected Expected.statement
  | .expression => if full then .nestingTooDeep else .expected Expected.expression
  | .comparison => if full then .nestingTooDeep else .expected Expected.comparison
  | _ => .nestingTooDeep

/-- The same behind a token that `rule` has passed. -/
def refusalBehind (rule : Rule) (kind : TokenKind) (full : Bool) : Complaint :=
  match kind with
  | .newline | .keyword .then | .keyword .else => .expected Expected.statement
  | .symbol .openSquare => .expected (Expected.itemOr .closeSquare)
  | .symbol .openRound =>
    if rule = .application then .expected (Expected.itemOr .closeRound)
    else if full then .nestingTooDeep else .expected Expected.expression
  | .symbol .assign | .symbol .comma | .symbol .arrow
  | .keyword .if | .keyword .elif | .keyword .while | .keyword .to | .keyword .step =>
    if full then .nestingTooDeep else .expected Expected.expression
  | .keyword .not | .keyword .and | .keyword .or =>
    if full then .nestingTooDeep else .expected Expected.comparison
  | _ => .nestingTooDeep

/-- How many levels deeper a rule can get at its first token. -/
def levels : Rule → Nat
  | .block | .statement | .body | .closedBody | .expression => 3
  | .comparison => 2
  | .sum | .product | .signed => 1
  | _ => 0

end Rule

/-- What a caller makes of an error: if it stands at the token where the call was made, the caller
    may have something to say instead. -/
def tell (told : Option (List TokenClass)) (c : Cursor) (error : SyntaxError) : SyntaxError :=
  match told with
  | none => error
  | some classes => error.orExpected c fun _ => .expected classes

/-- What becomes of a refusal at the first token of a called rule. -/
def said (inner : Rule) (told : Option (List TokenClass)) (full : Bool) : Complaint :=
  told.elim (inner.refusal full) .expected

/-- A call that a rule makes at its own first token, or behind a token it has passed just before.
    What the rule says around all of its calls is `outer`. -/
def Site (kinds : Kinds) (rule : Rule) (start : Cursor) (outer : Option (List TokenClass))
    (inner : Rule) (last : Option Cursor) (c : Cursor) (told : Option (List TokenClass)) : Prop :=
  match last with
  | none => c = start ∧ rule.depthInside inner.levels ≤ rule.levels ∧
    ∀ full, said inner (outer.or told) full = rule.refusal (full && !rule.guarded)
  | some token => ∀ full, said inner told full = rule.refusalBehind (kinds.kindAt token) full

/-- The places of calls, with the token passed last and what the caller has to say. -/
abbrev Sites := Rule → Option Cursor → Cursor → Option (List TokenClass) → Prop

namespace Parser

variable {α β σ : Type} {kinds : Kinds} {sites : Sites} {rule inner : Rule}
  {last : Option Cursor} {start c d : Cursor}

/-- The error is raised, or noted as that of a statement that is taken back. -/
def Gives (error : SyntaxError) : Parser α → Prop
  | .raise raised => raised = error
  | .note (.rolledBack _ _) _ => True
  | _ => False

/-- Every call is made at one of the sites, and its error is passed on as the site says. The token
    before the cursor is known if the description itself has passed it. -/
def Asks (kinds : Kinds) (sites : Sites) :
    Parser α → Option Cursor → Cursor → (α → Option Cursor → Cursor → Prop) → Prop
  | .done value, last, c, goOn => goOn value last c
  | .raise _, _, _, _ => True
  | .look next, last, c, goOn => (next c (kinds.kindAt c)).Asks kinds sites last c goOn
  | .advance next, _, c, goOn => next.Asks kinds sites (some c) c.next goOn
  | .attempt rule next, last, c, goOn =>
    (∃ told, sites rule last c told ∧
      ∀ error, kinds.Reaches c error.cursor → (next (.error error)).Gives (tell told c error)) ∧
    ∀ value d, kinds.Passes c d → (next (.ok value)).Asks kinds sites none d goOn
  | .note _ _, _, _, _ => False

theorem gives_bind {error : SyntaxError} {p : Parser α} (f : α → Parser β)
    (gives : p.Gives error) : (p.bind f).Gives error := by
  cases p with
  | raise => exact gives
  | note event => cases event <;> exact gives
  | done | look | advance | attempt => exact gives.elim

theorem asks_mono {p : Parser α} {goOn wider : α → Option Cursor → Cursor → Prop}
    (asks : p.Asks kinds sites last c goOn)
    (weaker : ∀ value last d, goOn value last d → wider value last d) :
    p.Asks kinds sites last c wider := by
  induction p generalizing last c with
  | done => exact weaker _ _ _ asks
  | raise => trivial
  | look next ih => exact ih c (kinds.kindAt c) asks
  | advance next ih => exact ih asks
  | attempt inner next ih =>
    exact ⟨asks.1, fun value d passes => ih _ (asks.2 value d passes)⟩
  | note => exact asks.elim

theorem asks_bind {p : Parser α} {f : α → Parser β} {goOn : β → Option Cursor → Cursor → Prop}
    (asks : p.Asks kinds sites last c fun value last d => (f value).Asks kinds sites last d goOn) :
    (p.bind f).Asks kinds sites last c goOn := by
  induction p generalizing last c with
  | done => exact asks
  | raise => trivial
  | look next ih => exact ih c (kinds.kindAt c) asks
  | advance next ih => exact ih asks
  | attempt inner next ih =>
    obtain ⟨⟨told, site, gives⟩, success⟩ := asks
    exact ⟨⟨told, site, fun error reaches => gives_bind f (gives error reaches)⟩,
      fun value d passes => ih _ (success value d passes)⟩
  | note => exact asks.elim

/-- An error at the start of a description gives way, a later one stays. -/
theorem orExpected_eq {error : SyntaxError} (ahead : c.index ≤ error.cursor.index)
    (classes : List TokenClass) : error.orExpected c (fun _ => .expected classes) =
      if error.cursor = c then ⟨.expected classes, c⟩ else error := by
  rw [Failure.orExpected, Failure.isImmediate, Cursor.passedSince]
  by_cases same : error.cursor = c
  · rw [if_pos same, same, Nat.sub_self]
    rfl
  · have later : error.cursor.index - c.index ≠ 0 := by
      intro gone
      have index : error.cursor.index = c.index := by omega
      exact same (congrArg Cursor.mk index)
    rw [if_neg same, if_neg (by simpa using later)]

theorem tell_cursor (told : Option (List TokenClass)) (c : Cursor) (error : SyntaxError) :
    (tell told c error).cursor = error.cursor := by
  cases told with
  | none => rfl
  | some classes => exact orExpected_cursor error _

/-- Who is asked last has the say. -/
theorem orExpected_tell {error : SyntaxError} (ahead : c.index ≤ error.cursor.index)
    (told : Option (List TokenClass)) (classes : List TokenClass) :
    (tell told c error).orExpected c (fun _ => .expected classes) =
      tell (some classes) c error := by
  have still : c.index ≤ (tell told c error).cursor.index := tell_cursor told c error ▸ ahead
  rw [orExpected_eq still, tell_cursor, tell, orExpected_eq ahead]
  split
  · rfl
  · rename_i later
    cases told with
    | none => rfl
    | some other => rw [tell, orExpected_eq ahead, if_neg later]

theorem gives_mapError {error : SyntaxError} {p : Parser α} (g : SyntaxError → SyntaxError)
    (gives : p.Gives error) : (p.mapError g).Gives (g error) := by
  cases p with
  | raise => exact congrArg g gives
  | note event => cases event <;> exact gives
  | done | look | advance | attempt => exact gives.elim

/-- What a rule says around its calls is said of those at its first token only. -/
theorem asks_mapError {classes : List TokenClass} {p : Parser α}
    {goOn : α → Option Cursor → Cursor → Prop} (ahead : start.index ≤ c.index)
    (later : ∀ token, last = some token → start.index < c.index)
    (asks : p.Asks kinds (Site kinds rule start (some classes)) last c goOn) :
    (p.mapError fun error => error.orExpected start fun _ => .expected classes).Asks kinds
      (Site kinds rule start none) last c goOn := by
  induction p generalizing last c with
  | done => exact asks
  | raise => trivial
  | look next ih => exact ih c (kinds.kindAt c) ahead later asks
  | advance next ih =>
    exact ih (Nat.le_succ_of_le ahead) (fun _ _ => Nat.lt_succ_of_le ahead) asks
  | attempt inner next ih =>
    obtain ⟨⟨told, site, gives⟩, success⟩ := asks
    refine ⟨?_, fun value d passes => ?_⟩
    · cases last with
      | none =>
        obtain ⟨rfl, site⟩ := site
        refine ⟨some classes, ⟨rfl, site⟩, fun error reaches => ?_⟩
        rw [← orExpected_tell reaches.index_le told classes]
        exact gives_mapError _ (gives error reaches)
      | some token =>
        refine ⟨told, site, fun error reaches => ?_⟩
        have behind : start.index < (tell told c error).cursor.index := by
          rw [tell_cursor]
          exact Nat.lt_of_lt_of_le (later token rfl) reaches.index_le
        have stays := gives_mapError (fun error => error.orExpected start fun _ => .expected classes)
          (gives error reaches)
        rwa [orExpected_eq (Nat.le_of_lt behind),
          if_neg fun same => Nat.lt_irrefl _ (same ▸ behind)] at stays
    · have further := passes.index_lt
      exact ih _ (by omega) (fun _ other => by cases other) (success value d passes)
  | note => exact asks.elim

section Steps

variable {goOn : α → Option Cursor → Cursor → Prop}

@[simp] theorem asks_here_bind (f : Cursor → Parser α) :
    (here.bind f).Asks kinds sites last c goOn ↔ (f c).Asks kinds sites last c goOn := Iff.rfl

@[simp] theorem asks_peek_bind (f : TokenKind → Parser α) :
    (peek.bind f).Asks kinds sites last c goOn ↔ (f (kinds.kindAt c)).Asks kinds sites last c goOn :=
  Iff.rfl

@[simp] theorem asks_step_bind (f : Unit → Parser α) :
    (step.bind f).Asks kinds sites last c goOn ↔ (f ()).Asks kinds sites (some c) c.next goOn :=
  Iff.rfl

theorem asks_read {goOn : inner.Value → Option Cursor → Cursor → Prop}
    (site : sites inner last c none) (next : ∀ value d, goOn value none d) :
    (read inner).Asks kinds sites last c goOn :=
  ⟨⟨none, site, fun _ _ => rfl⟩, fun value d _ => next value d⟩

theorem asks_expecting_read {classes : List TokenClass}
    {goOn : inner.Value → Option Cursor → Cursor → Prop} (site : sites inner last c (some classes))
    (next : ∀ value d, goOn value none d) :
    (expecting classes (read inner)).Asks kinds sites last c goOn :=
  ⟨⟨some classes, site, fun _ _ => rfl⟩, fun value d _ => next value d⟩

theorem asks_expect {others : List TokenClass} {wanted : TokenClass}
    {goOn : Unit → Option Cursor → Cursor → Prop}
    (next : wanted.admits (kinds.kindAt c) = true → goOn () (some c) c.next) :
    (expect others wanted).Asks kinds sites last c goOn := by
  simp only [expect, bind_eq, asks_peek_bind]
  split
  · rename_i admits
    exact next admits
  · trivial

/-- An invariant of a loop, with the token passed last. -/
theorem asks_iterate {turn : σ → Parser (Option σ)} {goOn : σ → Option Cursor → Cursor → Prop}
    (inv : σ → Option Cursor → Cursor → Prop)
    (enough : ∀ state last c, inv state last c → goOn state last c)
    (keeps : ∀ state last c, inv state last c →
      (turn state).Asks kinds sites last c fun result last d =>
        match result with
        | none => goOn state last d
        | some changed => inv changed last d)
    (bound : Nat) (state : σ) (holds : inv state last c) :
    (iterate turn bound state).Asks kinds sites last c goOn := by
  induction bound generalizing state last c with
  | zero => exact enough state last c holds
  | succ bound ih =>
    refine asks_bind (asks_mono (keeps state last c holds) fun result last d kept => ?_)
    cases result with
    | none => exact kept
    | some changed => exact ih changed kept

/-- A loop that makes its calls right behind tokens it has passed in the same turn. -/
theorem asks_loop {turn : σ → Parser (Option σ)} {goOn : σ → Option Cursor → Cursor → Prop}
    {bound : Nat} {state : σ}
    (each : ∀ state last d, (turn state).Asks kinds sites last d fun _ _ _ => True)
    (next : ∀ state last d, goOn state last d) :
    (iterate turn bound state).Asks kinds sites last c goOn := by
  refine asks_iterate (fun _ _ _ => True) (fun state last d _ => next state last d)
    (fun state last d _ => asks_mono (each state last d) fun result last d _ => ?_) bound state
    trivial
  cases result with
  | none => exact next state last d
  | some changed => trivial

end Steps

section Rules

variable {bound : Nat} {outer : Option (List TokenClass)}

theorem site_behind {token : Cursor} {kind : TokenKind} {told : Option (List TokenClass)}
    (found : kinds.kindAt token = kind)
    (alike : ∀ full, said inner told full = rule.refusalBehind kind full) :
    Site kinds rule start outer inner (some token) c told := by
  intro full
  rw [found]
  exact alike full

theorem newlines_asks {goOn : Nat → Option Cursor → Cursor → Prop}
    (none : goOn 0 last c)
    (some : ∀ n token d, kinds.kindAt token = .newline → goOn (n + 1) (some token) d) :
    (newlines bound).Asks kinds sites last c goOn := by
  refine asks_iterate (fun n latest d => (n = 0 ∧ latest = last ∧ d = c) ∨ ∃ m token,
    n = m + 1 ∧ latest = .some token ∧ kinds.kindAt token = .newline) ?_ ?_ bound 0
    (.inl ⟨rfl, rfl, rfl⟩)
  · rintro n latest d (⟨rfl, rfl, rfl⟩ | ⟨m, token, rfl, rfl, separator⟩)
    · exact none
    · exact some m token d separator
  · intro n latest d passed
    simp only [bind_eq, pure_eq, asks_peek_bind]
    split
    · rename_i separator
      exact .inr ⟨n, d, rfl, rfl, isNewline_iff.1 separator⟩
    · rcases passed with ⟨rfl, rfl, rfl⟩ | ⟨m, token, rfl, rfl, separator⟩
      · exact none
      · exact some m token d separator

theorem identifier_asks {goOn : Ident Extent → Option Cursor → Cursor → Prop}
    (next : ∀ name last d, goOn name last d) : identifier.Asks kinds sites last c goOn := by
  simp only [identifier, bind_eq, asks_peek_bind]
  split
  · exact next _ _ _
  · trivial

theorem separated_asks {first item : Parser α} {goOn : List α → Option Cursor → Cursor → Prop}
    (head : first.Asks kinds sites last c fun _ _ _ => True)
    (each : ∀ token, kinds.kindAt token = .symbol .comma →
      item.Asks kinds sites (some token) token.next fun _ _ _ => True)
    (next : ∀ items last d, goOn items last d) :
    (separated bound first item).Asks kinds sites last c goOn := by
  simp only [separated, bind_eq, pure_eq]
  refine asks_bind (asks_mono head fun value last d _ => asks_loop (fun items last d => ?_) next)
  simp only [asks_peek_bind]
  split
  · rename_i comma
    exact (asks_step_bind _).2
      (asks_bind (asks_mono (each d (isSymbol_iff.1 comma)) fun _ _ _ _ => trivial))
  · trivial

theorem enclosed_asks {close : Symbol} {token : Cursor}
    {goOn : List Tree → Option Cursor → Cursor → Prop}
    (opened : ∀ full, rule.refusalBehind (kinds.kindAt token) full =
      .expected (Expected.itemOr close)) (next : ∀ items last d, goOn items last d) :
    (enclosed bound close).Asks kinds (Site kinds rule start outer) (some token) c goOn := by
  simp only [enclosed, bind_eq, pure_eq, asks_peek_bind]
  split
  · exact next _ _ _
  · refine asks_bind (separated_asks ?_ (fun comma found => ?_) fun items last d => ?_)
    · exact asks_expecting_read (fun full => (opened full).symm) fun _ _ => trivial
    · exact asks_read (site_behind found fun full => rfl) fun _ _ => trivial
    · exact asks_bind (asks_expect fun _ => next _ _ _)

theorem chain_asks {level : Level} {left right : Parser Tree}
    (head : left.Asks kinds sites last c fun _ _ _ => True)
    (each : ∀ (op : BinaryOp) token, kinds.kindAt token = op.token → op.level = level →
      right.Asks kinds sites (some token) token.next fun _ _ _ => True) :
    (chain bound level left right).Asks kinds sites last c fun _ _ _ => True := by
  simp only [chain, bind_eq]
  refine asks_bind (asks_mono head fun value last d _ => asks_loop (fun operand last d => ?_)
    fun _ _ _ => trivial)
  simp only [operation, bind_eq, pure_eq, asks_peek_bind]
  split
  · trivial
  · rename_i op found
    obtain ⟨same, level⟩ := BinaryOp.atLevel?_eq_some_iff.1 found
    exact (asks_step_bind _).2
      (asks_bind (asks_mono (each op d same level) fun _ _ _ _ => trivial))

theorem operand_asks {level : Level}
    (alike : ∀ op : BinaryOp, op.level = level → ∀ full,
      said inner none full = rule.refusalBehind op.token full)
    (op : BinaryOp) (token : Cursor) (found : kinds.kindAt token = op.token)
    (fits : op.level = level) :
    (read inner).Asks kinds (Site kinds rule start outer) (some token) token.next
      fun _ _ _ => True :=
  asks_read (site_behind found (alike op fits)) fun _ _ => trivial

theorem block_asks : (block bound).Asks kinds (Site kinds .block start none) none start
    fun _ _ _ => True := by
  simp only [block, bind_eq, pure_eq]
  -- Behind the first statement each further one stands behind a separator of its own turn.
  have rest (first : Tree) (d : Cursor) :
      (iterate (further bound) bound [first]).Asks kinds (Site kinds .block start none) none d
        fun _ _ _ => True := by
    refine asks_loop (fun statements last e => ?_) fun _ _ _ => trivial
    simp only [further, bind_eq, pure_eq]
    refine asks_bind (newlines_asks trivial fun n token e separator => ?_)
    refine (asks_here_bind _).2 ⟨⟨none, ?_, fun _ _ => trivial⟩, fun _ _ _ => trivial⟩
    exact site_behind separator fun _ => rfl
  refine asks_bind (newlines_asks ?_ fun n token d separator => ?_)
  · refine asks_bind (asks_read ⟨rfl, by decide, fun _ => rfl⟩ fun first d => ?_)
    exact asks_bind (asks_mono (rest first d) fun _ _ _ _ => trivial)
  · refine asks_bind (asks_read (site_behind separator fun _ => rfl) fun first d => ?_)
    exact asks_bind (asks_mono (rest first d) fun _ _ _ _ => trivial)

theorem statement_asks (free : kinds.kindAt start ≠ .keyword .return) :
    statement.Asks kinds (Site kinds .statement start none) none start fun _ _ _ => True := by
  simp only [statement, bind_eq, asks_here_bind, asks_peek_bind]
  split
  · rename_i found
    exact absurd found free
  · trivial
  · trivial
  · exact asks_expecting_read ⟨rfl, by decide, fun _ => rfl⟩ fun _ _ => trivial

theorem body_asks : body.Asks kinds (Site kinds .body start none) none start
    fun _ _ _ => True := by
  simp only [body, bind_eq, pure_eq, asks_peek_bind]
  split
  · rename_i separator
    refine (asks_step_bind _).2 (asks_bind (asks_read ?_ fun _ _ => trivial))
    exact site_behind (isNewline_iff.1 separator) fun _ => rfl
  · exact asks_bind (asks_read ⟨rfl, by decide, fun _ => rfl⟩ fun _ _ => trivial)

theorem closedBody_asks : closedBody.Asks kinds (Site kinds .closedBody start none) none start
    fun _ _ _ => True := by
  simp only [closedBody, bind_eq, pure_eq]
  refine asks_bind (asks_read ⟨rfl, by decide, fun _ => rfl⟩ fun body d => ?_)
  split
  · exact asks_bind (asks_expect fun _ => trivial)
  · trivial

theorem expression_asks : (expression bound).Asks kinds (Site kinds .expression start none) none
    start fun _ _ _ => True := by
  simp only [expression, bind_eq, asks_here_bind, asks_peek_bind]
  split
  · simp only [assignment, bind_eq, asks_step_bind]
    refine asks_bind (identifier_asks fun name last d => ?_)
    refine asks_bind (asks_expect fun assigns => ?_)
    refine asks_bind (asks_read ?_ fun _ _ => trivial)
    exact site_behind (admits_symbol.1 assigns) fun _ => rfl
  · refine asks_mapError (Nat.le_refl _) (fun _ other => by cases other) (chain_asks ?_ ?_)
    · exact asks_read ⟨rfl, by decide, fun full => by cases full <;> rfl⟩ fun _ _ => trivial
    · exact operand_asks fun op level => by cases op <;> cases level <;> exact fun _ => rfl

theorem comparison_asks : (comparison bound).Asks kinds (Site kinds .comparison start none) none
    start fun _ _ _ => True := by
  simp only [comparison, bind_eq, asks_here_bind, asks_peek_bind]
  split
  · rename_i found
    refine (asks_step_bind _).2 (asks_bind (asks_read ?_ fun _ _ => trivial))
    exact site_behind found fun _ => rfl
  · refine asks_mapError (Nat.le_refl _) (fun _ other => by cases other) (chain_asks ?_ ?_)
    · exact asks_read ⟨rfl, by decide, fun full => by cases full <;> rfl⟩ fun _ _ => trivial
    · exact operand_asks fun op level => by cases op <;> cases level <;> exact fun _ => rfl

theorem signed_asks : signed.Asks kinds (Site kinds .signed start none) none start
    fun _ _ _ => True := by
  simp only [signed, bind_eq, asks_here_bind, asks_peek_bind]
  split
  · rename_i op found
    refine (asks_step_bind _).2 (asks_bind (asks_read ?_ fun _ _ => trivial))
    unfold UnaryOp.sign? at found
    split at found
    · rename_i plus
      exact site_behind plus fun _ => rfl
    · rename_i minus
      exact site_behind minus fun _ => rfl
    · cases found
  · exact asks_read ⟨rfl, by decide, fun _ => rfl⟩ fun _ _ => trivial

theorem application_asks : (application bound).Asks kinds (Site kinds .application start none) none
    start fun _ _ _ => True := by
  simp only [application, bind_eq, pure_eq, asks_here_bind]
  refine asks_bind (asks_read ⟨rfl, by decide, fun _ => rfl⟩ fun callee d => ?_)
  simp only [asks_peek_bind]
  split
  · rename_i opening
    refine (asks_step_bind _).2 (asks_bind (enclosed_asks (fun full => ?_) fun _ _ _ => trivial))
    rw [isSymbol_iff.1 opening]
    rfl
  · trivial

theorem atom_asks : atom.Asks kinds (Site kinds .atom start none) none start
    fun _ _ _ => True := by
  simp only [atom, bind_eq, asks_peek_bind]
  split <;> rename_i found
  · trivial
  · trivial
  · trivial
  · trivial
  · simp only [bracketed, bind_eq, pure_eq, asks_step_bind]
    refine asks_bind (asks_read (site_behind found fun _ => rfl) fun inner d => ?_)
    exact asks_bind (asks_expect fun _ => trivial)
  · exact asks_read ⟨rfl, by decide, fun _ => rfl⟩ fun _ _ => trivial
  · exact asks_read ⟨rfl, by decide, fun _ => rfl⟩ fun _ _ => trivial
  · exact asks_read ⟨rfl, by decide, fun _ => rfl⟩ fun _ _ => trivial
  · exact asks_read ⟨rfl, by decide, fun _ => rfl⟩ fun _ _ => trivial
  · exact asks_read ⟨rfl, by decide, fun _ => rfl⟩ fun _ _ => trivial
  · trivial

theorem listing_asks : (listing bound).Asks kinds (Site kinds .listing start none) none start
    fun _ _ _ => True := by
  simp only [listing, bind_eq, asks_here_bind]
  refine asks_bind (asks_expect fun opening => asks_bind (enclosed_asks (fun full => ?_)
    fun _ _ _ => trivial))
  rw [admits_symbol.1 opening]
  rfl

theorem clause_asks {word : Keyword} {goOn : Clause Tree → Option Cursor → Cursor → Prop}
    (begins : word = .if ∨ word = .elif) (next : ∀ clause last d, goOn clause last d) :
    (clause word).Asks kinds (Site kinds .conditional start none) last c goOn := by
  simp only [clause, bind_eq, pure_eq]
  refine asks_bind (asks_expect fun beginning => ?_)
  refine asks_bind (asks_read (site_behind (admits_keyword.1 beginning) ?_) fun condition d => ?_)
  · rcases begins with rfl | rfl <;> exact fun _ => rfl
  refine asks_bind (asks_expect fun consequence => ?_)
  exact asks_bind (asks_read (site_behind (admits_keyword.1 consequence) fun _ => rfl)
    fun body d => next _ _ _)

theorem otherwise_asks {clauses : List (Clause Tree)}
    {goOn : Option (Body Tree) → Option Cursor → Cursor → Prop}
    (next : ∀ last latest d, goOn last latest d) :
    (otherwise clauses).Asks kinds (Site kinds .conditional start none) last c goOn := by
  simp only [otherwise, bind_eq, pure_eq, asks_peek_bind]
  split
  · exact next _ _ _
  split
  · rename_i other
    refine (asks_step_bind _).2 (asks_bind (asks_read ?_ fun _ _ => next _ _ _))
    exact site_behind (isKeyword_iff.1 other) fun _ => rfl
  split
  · trivial
  · exact next _ _ _

theorem conditional_asks : (conditional bound).Asks kinds (Site kinds .conditional start none) none
    start fun _ _ _ => True := by
  simp only [conditional, bind_eq, asks_here_bind]
  refine asks_bind (clause_asks (.inl rfl) fun first last d => ?_)
  refine asks_bind (asks_loop (fun clauses last d => ?_) fun clauses last d => ?_)
  · simp only [furtherClause, bind_eq, pure_eq, asks_peek_bind]
    split
    · exact asks_bind (clause_asks (.inr rfl) fun _ _ _ => trivial)
    · trivial
  · exact asks_bind (otherwise_asks fun _ _ _ => trivial)

theorem stride_asks {goOn : Option Tree → Option Cursor → Cursor → Prop}
    (next : ∀ step last d, goOn step last d) :
    stride.Asks kinds (Site kinds .forLoop start none) last c goOn := by
  simp only [stride, bind_eq, pure_eq, asks_peek_bind]
  split
  · rename_i stepping
    refine (asks_step_bind _).2 (asks_bind (asks_read ?_ fun _ _ => next _ _ _))
    exact site_behind (isKeyword_iff.1 stepping) fun _ => rfl
  · exact next _ _ _

theorem forLoop_asks : forLoop.Asks kinds (Site kinds .forLoop start none) none start
    fun _ _ _ => True := by
  simp only [forLoop, bind_eq, asks_here_bind]
  refine asks_bind (asks_expect fun _ => ?_)
  refine asks_bind (identifier_asks fun name last d => ?_)
  refine asks_bind (asks_expect fun assigns => ?_)
  refine asks_bind (asks_read (site_behind (admits_symbol.1 assigns) fun _ => rfl) fun _ d => ?_)
  refine asks_bind (asks_expect fun upTo => ?_)
  refine asks_bind (asks_read (site_behind (admits_keyword.1 upTo) fun _ => rfl) fun _ d => ?_)
  refine asks_bind (stride_asks fun step last d => ?_)
  refine asks_bind (asks_expect fun consequence => ?_)
  exact asks_bind (asks_read (site_behind (admits_keyword.1 consequence) fun _ => rfl)
    fun _ _ => trivial)

theorem whileLoop_asks : whileLoop.Asks kinds (Site kinds .whileLoop start none) none start
    fun _ _ _ => True := by
  simp only [whileLoop, bind_eq, asks_here_bind]
  refine asks_bind (asks_expect fun looping => ?_)
  refine asks_bind (asks_read (site_behind (admits_keyword.1 looping) fun _ => rfl) fun _ d => ?_)
  refine asks_bind (asks_expect fun consequence => ?_)
  exact asks_bind (asks_read (site_behind (admits_keyword.1 consequence) fun _ => rfl)
    fun _ _ => trivial)

theorem functionName_asks {goOn : Option (Ident Extent) → Option Cursor → Cursor → Prop}
    (next : ∀ name last d, goOn name last d) : functionName.Asks kinds sites last c goOn := by
  simp only [functionName, bind_eq, pure_eq, asks_peek_bind]
  split
  · exact asks_bind (identifier_asks fun name last d => asks_bind (asks_expect fun _ => next _ _ _))
  · exact asks_bind (asks_expect fun _ => next _ _ _)

theorem params_asks {goOn : List (Ident Extent) → Option Cursor → Cursor → Prop}
    (next : ∀ names last d, goOn names last d) : (params bound).Asks kinds sites last c goOn := by
  simp only [params, bind_eq, pure_eq, asks_peek_bind]
  split
  · refine asks_bind (separated_asks (identifier_asks fun _ _ _ => trivial)
      (fun _ _ => identifier_asks fun _ _ _ => trivial) fun names last d => ?_)
    exact asks_bind (asks_expect fun _ => next _ _ _)
  · exact asks_bind (asks_expect fun _ => next _ _ _)

theorem functionBody_asks {goOn : Body Tree → Option Cursor → Cursor → Prop}
    (next : ∀ body last d, goOn body last d) :
    functionBody.Asks kinds (Site kinds .function start none) last c goOn := by
  simp only [functionBody, bind_eq, pure_eq, asks_peek_bind]
  split
  · rename_i arrow
    refine (asks_step_bind _).2 (asks_bind (asks_read ?_ fun _ _ => next _ _ _))
    exact site_behind (isSymbol_iff.1 arrow) fun _ => rfl
  · refine asks_bind (asks_expect fun separator => ?_)
    refine asks_bind (asks_read (site_behind (admits_newline.1 separator) fun _ => rfl)
      fun node d => ?_)
    exact asks_bind (asks_expect fun _ => next _ _ _)

theorem function_asks : (function bound).Asks kinds (Site kinds .function start none) none start
    fun _ _ _ => True := by
  simp only [function, bind_eq, asks_here_bind]
  refine asks_bind (asks_expect fun _ => ?_)
  refine asks_bind (functionName_asks fun name last d => ?_)
  refine asks_bind (params_asks fun params last d => ?_)
  exact asks_bind (functionBody_asks fun body last d => trivial)

end Rules

end Parser

open Grammar.Parser in
/-- Where no value can stand behind a return, every rule makes its calls at such sites. -/
theorem Rule.parser_asks {kinds : Kinds} {start : Cursor} (rule : Rule) (bound : Nat)
    (free : kinds.kindAt start ≠ .keyword .return) :
    (rule.parser bound).Asks kinds (Site kinds rule start none) none start fun _ _ _ => True := by
  cases rule with
  | block => exact block_asks
  | statement => exact statement_asks free
  | expression => exact expression_asks
  | comparison => exact comparison_asks
  | sum =>
    refine chain_asks (asks_read ⟨rfl, by decide, fun _ => rfl⟩ fun _ _ => trivial) ?_
    exact operand_asks fun op level => by cases op <;> cases level <;> exact fun _ => rfl
  | product =>
    refine chain_asks (asks_read ⟨rfl, by decide, fun _ => rfl⟩ fun _ _ => trivial) ?_
    exact operand_asks fun op level => by cases op <;> cases level <;> exact fun _ => rfl
  | signed => exact signed_asks
  | power =>
    refine chain_asks (asks_read ⟨rfl, by decide, fun _ => rfl⟩ fun _ _ => trivial) ?_
    exact operand_asks fun op level => by cases op <;> cases level; exact fun _ => rfl
  | application => exact application_asks
  | atom => exact atom_asks
  | listing => exact listing_asks
  | conditional => exact conditional_asks
  | forLoop => exact forLoop_asks
  | whileLoop => exact whileLoop_asks
  | function => exact function_asks
  | body => exact body_asks
  | closedBody => exact closedBody_asks

end Sharp.Grammar
