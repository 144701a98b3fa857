import Scriptlet.Main
import Scriptlet.Proofs.Bounded
import Scriptlet.Proofs.Completeness
import Scriptlet.Proofs.Coverage
import Scriptlet.Proofs.Cutoff
import Scriptlet.Proofs.Formatting
import Scriptlet.Proofs.Resolution
import Scriptlet.Proofs.TypeSoundness
import Scriptlet.Service
import Scriptlet.Service.Options
import Scriptlet.Proofs.Nesting
import Scriptlet.Proofs.SpanNesting
import Scriptlet.Proofs.Tower
import Scriptlet.Proofs.Echoes
import Scriptlet.Proofs.FunctionIdentity
import Scriptlet.Proofs.FunctionPlacement
import Scriptlet.Proofs.Misspelling
import Scriptlet.Proofs.Signals
import Scriptlet.Proofs.Provenance
import Scriptlet.Proofs.Gating
import Scriptlet.Proofs.Isolation
import Scriptlet.Proofs.DirectCalls
import Scriptlet.Proofs.DeclaredTypes
import Scriptlet.Proofs.LexicalScoping
import Scriptlet.Proofs.LineBreaks
import Scriptlet.Proofs.MaximalMunch
import Scriptlet.Proofs.Concatenation
import Scriptlet.Proofs.ExactIntegers
import Scriptlet.Proofs.StackBalance
import Scriptlet.Proofs.DeadCode
import Scriptlet.Proofs.Appending
import Scriptlet.Proofs.Literals
import Scriptlet.Proofs.Positions
import Scriptlet.Proofs.StringLiterals
import Scriptlet.Proofs.Outlines
import Scriptlet.Proofs.ScopeHistory
