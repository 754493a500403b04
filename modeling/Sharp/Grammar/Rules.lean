import Sharp.Grammar.Rules.Blocks
import Sharp.Grammar.Rules.Constructs
import Sharp.Grammar.Rules.Operators

/-!
The rules together. Every loop in them is bounded by the number of tokens.
-/
namespace Sharp.Grammar

/-- The description of each rule, for a row of at most `bound` tokens. -/
def Rule.parser (bound : Nat) : (rule : Rule) → Parser rule.Value
  | .block => Parser.block bound
  | .statement => Parser.statement
  | .expression => Parser.expression bound
  | .comparison => Parser.comparison bound
  | .sum => Parser.chain bound .additive (.read .product) (.read .product)
  | .product => Parser.chain bound .multiplicative (.read .signed) (.read .signed)
  | .signed => Parser.signed
  | .power => Parser.chain bound .power (.read .application) (.read .signed)
  | .application => Parser.application bound
  | .atom => Parser.atom
  | .listing => Parser.listing bound
  | .conditional => Parser.conditional bound
  | .forLoop => Parser.forLoop
  | .whileLoop => Parser.whileLoop
  | .function => Parser.function bound
  | .body => Parser.body
  | .closedBody => Parser.closedBody

end Sharp.Grammar
