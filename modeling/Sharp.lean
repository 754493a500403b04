import Sharp.Program
import Sharp.Proofs.Arrows
import Sharp.Proofs.Bracketing
import Sharp.Proofs.Grammar.Acceptance
import Sharp.Proofs.Grammar.Attempts
import Sharp.Proofs.Grammar.BlankLines
import Sharp.Proofs.Grammar.Composition
import Sharp.Proofs.Grammar.Ending
import Sharp.Proofs.Grammar.Expectation
import Sharp.Proofs.Grammar.Nesting
import Sharp.Proofs.Grammar.Precedence
import Sharp.Proofs.Grammar.Refusal
import Sharp.Proofs.Grammar.Retraction
import Sharp.Proofs.Lexeme.Faults
import Sharp.Proofs.Lexeme.Munch
import Sharp.Proofs.Lexeme.Printing
import Sharp.Proofs.Spans
import Sharp.Proofs.Traceback
import Sharp.Proofs.Tree.Distinctness
