/-!
The reserved words, written in capitals and matched exactly.
-/
namespace Sharp

inductive Keyword
  | var | and | or | not | if | elif | else | for | to | step | while | fun | then | end
  | return | continue | break
deriving DecidableEq

namespace Keyword

def all : List Keyword :=
  [.var, .and, .or, .not, .if, .elif, .else, .for, .to, .step, .while, .fun, .then, .end,
    .return, .continue, .break]

def word : Keyword → String
  | .var => "VAR"
  | .and => "AND"
  | .or => "OR"
  | .not => "NOT"
  | .if => "IF"
  | .elif => "ELIF"
  | .else => "ELSE"
  | .for => "FOR"
  | .to => "TO"
  | .step => "STEP"
  | .while => "WHILE"
  | .fun => "FUN"
  | .then => "THEN"
  | .end => "END"
  | .return => "RETURN"
  | .continue => "CONTINUE"
  | .break => "BREAK"

def ofWord? (w : String) : Option Keyword := all.find? fun k => k.word == w

theorem mem_all (k : Keyword) : k ∈ all := by cases k <;> decide

theorem ofWord?_word (k : Keyword) : ofWord? k.word = some k := by cases k <;> decide

theorem word_injective {j k : Keyword} (same : j.word = k.word) : j = k := by
  have found := ofWord?_word j
  rw [same, ofWord?_word] at found
  exact (Option.some.inj found).symm

theorem ofWord?_eq_some_iff {w : String} {k : Keyword} : ofWord? w = some k ↔ w = k.word := by
  constructor
  · intro found
    unfold ofWord? at found
    have spelled := List.find?_some found
    exact (eq_of_beq spelled).symm
  · rintro rfl
    exact ofWord?_word k

end Keyword

end Sharp
