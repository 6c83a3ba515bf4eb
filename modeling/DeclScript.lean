import DeclScript.Agreement
import DeclScript.Diagnostic.Report
import DeclScript.Grammar.Session
import DeclScript.Token.Session
import DeclScript.Tree.Outline
import DeclScript.Proofs.Buffer
import DeclScript.Proofs.Standing
import DeclScript.Proofs.Faults
import DeclScript.Proofs.Joining
import DeclScript.Proofs.Leaves
import DeclScript.Proofs.Pointing
import DeclScript.Proofs.RoundTrip
import DeclScript.Proofs.Spacing
import DeclScript.Proofs.Longest
import DeclScript.Proofs.Breakage
import DeclScript.Proofs.Aftermath
import DeclScript.Proofs.Headway
import DeclScript.Proofs.Registration
import DeclScript.Proofs.Caret
import DeclScript.Proofs.Settling
import DeclScript.Proofs.Display
import DeclScript.Proofs.Places
import DeclScript.Proofs.Pulling
import DeclScript.Proofs.Cursor
