import Sharp.Text.Quoted
import Sharp.Tree.Basic

/-!
The bracketed form of a tree. Lists and clauses stand in square brackets, the statements of a block
in curly ones, all else in round ones behind a word that names it. Bodies on lines of their own are
marked.
-/
namespace Sharp

inductive Sexp
  | atom (text : String)
  | round (items : List Sexp)
  | square (items : List Sexp)
  | curly (items : List Sexp)

namespace Sexp

mutual

def text : Sexp → String
  | .atom s => s
  | .round items => "(" ++ joined " " items ++ ")"
  | .square items => "[" ++ joined " " items ++ "]"
  | .curly items => "\x7b" ++ joined "; " items ++ "\x7d"
termination_by structural t => t

def joined (between : String) : List Sexp → String
  | [] => ""
  | item :: rest => text item ++ following between rest
termination_by structural ts => ts

def following (between : String) : List Sexp → String
  | [] => ""
  | item :: rest => between ++ text item ++ following between rest
termination_by structural ts => ts

end

def ofIdent {α : Type} (name : Ident α) : Sexp := .atom name.name

def blockMark (isBlock : Bool) : List Sexp := if isBlock then [.atom ":block"] else []

end Sexp

namespace Node

variable {α : Type}

mutual

def sexp : Node α → Sexp
  | .int _ value => .atom (toString value)
  | .float _ value => .atom (Decimal.floatText value)
  | .string _ value => .atom (Text.quoted value)
  | .list _ items => .square (sexps items)
  | .access _ name => .atom name
  | .assign _ name value => .round [.atom "var", .ofIdent name, sexp value]
  | .binary _ op left right => .round [.atom op.text, sexp left, sexp right]
  | .unary _ op operand => .round [.atom op.text, sexp operand]
  | .ifElse _ clauses otherwise =>
    .round (.atom "if" :: (clauseSexps clauses ++
      (match otherwise with
        | none => []
        | some ⟨node, isBlock⟩ => [.square (.atom "else" :: sexp node :: Sexp.blockMark isBlock)])))
  | .forLoop _ name start stop step ⟨node, isBlock⟩ =>
    .round (.atom "for" :: .ofIdent name :: sexp start :: sexp stop ::
      ((match step with
        | none => []
        | some stride => [.atom "step", sexp stride]) ++ sexp node :: Sexp.blockMark isBlock))
  | .whileLoop _ condition ⟨node, isBlock⟩ =>
    .round (.atom "while" :: sexp condition :: sexp node :: Sexp.blockMark isBlock)
  | .function _ name params ⟨node, isBlock⟩ =>
    .round [.atom "fun", name.elim (.atom "<anonymous>") Sexp.ofIdent,
      .round (params.map Sexp.ofIdent), .atom (if isBlock then "block" else "->"), sexp node]
  | .call _ callee args => .round (.atom "call" :: sexp callee :: sexps args)
  | .returnWith _ value =>
    .round (.atom "return" ::
      (match value with
        | none => []
        | some node => [sexp node]))
  | .continueLoop _ => .round [.atom "continue"]
  | .breakLoop _ => .round [.atom "break"]
  | .block _ statements => .curly (sexps statements)
termination_by structural t => t

def sexps : List (Node α) → List Sexp
  | [] => []
  | node :: rest => sexp node :: sexps rest
termination_by structural ts => ts

def clauseSexps : List (Clause (Node α)) → List Sexp
  | [] => []
  | ⟨condition, ⟨node, isBlock⟩⟩ :: rest =>
    .square (sexp condition :: sexp node :: Sexp.blockMark isBlock) :: clauseSexps rest
termination_by structural cs => cs

end

/-- The bracketed form written out. -/
def text (node : Node α) : String := node.sexp.text

end Node

end Sharp
