import Sharp.Grammar.Run
import Sharp.Diagnostic.Basic

/-!
Tokens in a row that ends with a final token. A row without one gets it where its last token ends,
and an empty row is taken to stand at the start of an unknown text. What stands on some of the
tokens has its span from the first to the last of them, and an error is told with the span of the
token it is about.
-/
namespace Sharp.Grammar

structure TokenStream where
  front : Array Token
  final : Token
  ends : final.kind = .eof

namespace TokenStream

def unknownSource : Source := ⟨"<unknown>", ""⟩

def finishAfter (last : Option Token) : Token :=
  .finish (last.elim (.start unknownSource) fun t => t.span.stop)

def ofList (tokens : List Token) : TokenStream :=
  match tokens.getLast? with
  | none => ⟨#[], finishAfter none, rfl⟩
  | some last =>
    if ends : last.kind = .eof then ⟨tokens.dropLast.toArray, last, ends⟩
    else ⟨tokens.toArray, finishAfter (some last), rfl⟩

def kinds (stream : TokenStream) : Kinds := (stream.front.map Token.kind).push .eof

def tokenAt (stream : TokenStream) (c : Cursor) : Token := stream.front.getD c.index stream.final

theorem kindAt_kinds (stream : TokenStream) (c : Cursor) :
    stream.kinds.kindAt c = (stream.tokenAt c).kind := by
  have ends := stream.ends
  unfold Kinds.kindAt kinds tokenAt
  simp only [Array.getD_eq_getD_getElem?, Array.getElem?_push, Array.size_map, Array.getElem?_map]
  by_cases inside : c.index < stream.front.size
  · have other : c.index ≠ stream.front.size := Nat.ne_of_lt inside
    simp [inside, other]
  · by_cases last : c.index = stream.front.size
    · simp [last, ends]
    · simp [last, inside, ends]

def spanOf (stream : TokenStream) (extent : Extent) : Span :=
  .join (stream.tokenAt extent.first).span (stream.tokenAt extent.last).span

def diagnose (stream : TokenStream) (error : SyntaxError) : Diagnostic :=
  ⟨.invalidSyntax, error.error.message, (stream.tokenAt error.cursor).span⟩

end TokenStream

end Sharp.Grammar
