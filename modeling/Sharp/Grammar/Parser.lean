import Sharp.Grammar.Rule

/-!
Parsers as descriptions. A description looks at the token it stands on, moves one token on, calls
rules and notes events; how calls are carried out is left to whoever runs it. A failed call leaves
the cursor where it was.
-/
namespace Sharp.Grammar

inductive Parser (α : Type) : Type
  | done (value : α)
  | raise (error : SyntaxError)
  | look (next : Cursor → TokenKind → Parser α)
  | advance (next : Parser α)
  | attempt (rule : Rule) (next : Except SyntaxError rule.Value → Parser α)
  | note (event : Event) (next : Parser α)

namespace Parser

variable {α β σ : Type}

def bind : Parser α → (α → Parser β) → Parser β
  | .done value, f => f value
  | .raise error, _ => .raise error
  | .look next, f => .look fun c kind => (next c kind).bind f
  | .advance next, f => .advance (next.bind f)
  | .attempt rule next, f => .attempt rule fun result => (next result).bind f
  | .note event next, f => .note event (next.bind f)

instance : Monad Parser where
  pure := .done
  bind := bind

theorem bind_done (p : Parser α) : p.bind .done = p := by
  induction p with
  | done => rfl
  | raise => rfl
  | look next ih => exact congrArg look (funext fun c => funext fun kind => ih c kind)
  | advance next ih => exact congrArg advance ih
  | attempt rule next ih => exact congrArg (attempt rule) (funext ih)
  | note event next ih => exact congrArg (note event) ih

theorem bind_bind {γ : Type} (p : Parser α) (f : α → Parser β) (g : β → Parser γ) :
    (p.bind f).bind g = p.bind fun a => (f a).bind g := by
  induction p with
  | done => rfl
  | raise => rfl
  | look next ih => exact congrArg look (funext fun c => funext fun kind => ih c kind)
  | advance next ih => exact congrArg advance ih
  | attempt rule next ih => exact congrArg (attempt rule) (funext ih)
  | note event next ih => exact congrArg (note event) ih

instance : LawfulMonad Parser := LawfulMonad.mk' Parser bind_done (fun _ _ => rfl) bind_bind

def mapError (g : SyntaxError → SyntaxError) : Parser α → Parser α
  | .done value => .done value
  | .raise error => .raise (g error)
  | .look next => .look fun c kind => (next c kind).mapError g
  | .advance next => .advance (next.mapError g)
  | .attempt rule next => .attempt rule fun result => (next result).mapError g
  | .note event next => .note event (next.mapError g)

def here : Parser Cursor := .look fun c _ => .done c

def peek : Parser TokenKind := .look fun _ kind => .done kind

def step : Parser Unit := .advance (.done ())

def noting (event : Event) : Parser Unit := .note event (.done ())

def fail (complaint : Complaint) : Parser α := .look fun c _ => .raise ⟨complaint, c⟩

def ofExcept : Except SyntaxError α → Parser α
  | .ok value => .done value
  | .error error => .raise error

def read (rule : Rule) : Parser rule.Value := .attempt rule ofExcept

/-- What an error says at the very start of `p` gives way to the list of classes. -/
def expecting (classes : List TokenClass) (p : Parser α) : Parser α :=
  .look fun start _ => p.mapError fun error => error.orExpected start fun _ => .expected classes

/-- Passes one token of a class; `others` are named as well where it is missing. -/
def expect (others : List TokenClass) (wanted : TokenClass) : Parser Unit := do
  if wanted.admits (← peek) then step
  else fail (.expected (others ++ [wanted]))

/-- Repeats a step while it finds something to do, at most `bound` times. -/
def iterate (advance : σ → Parser (Option σ)) : Nat → σ → Parser σ
  | 0, state => .done state
  | bound + 1, state =>
    (advance state).bind fun result =>
      match result with
      | none => .done state
      | some changed => iterate advance bound changed

/-- What is built from the tokens passed since `start`. -/
def spanning (start : Cursor) (build : Extent → α) : Parser α :=
  .look fun c _ => .done (build (.upTo start c))

end Parser

end Sharp.Grammar
