import LineScript.Main
import LineScript.Proofs.CleanLint
import LineScript.Proofs.Console.Ledger
import LineScript.Proofs.Formatting
import LineScript.Stores
import LineScript.Proofs.Canonical
import LineScript.Proofs.Unparse
import LineScript.Proofs.LostOutput
import LineScript.Proofs.Console.Loading
import LineScript.Proofs.Endings
import LineScript.Proofs.Composition
import LineScript.Proofs.Readers
import LineScript.Proofs.Bindings
import LineScript.Proofs.Noninterference
import LineScript.Proofs.Readback
import LineScript.Proofs.Counts
import LineScript.Proofs.Verdict
import LineScript.Proofs.LineLimit
import LineScript.Proofs.OutputLines
import LineScript.Proofs.Serialisation
import LineScript.Proofs.Resolution
import LineScript.Proofs.Renewal
import LineScript.Proofs.Console.Safety
import LineScript.Proofs.Rewriting
import LineScript.Proofs.Place
import LineScript.Proofs.PartialOutput
import LineScript.Proofs.Console.Report
import LineScript.Proofs.NoEffect
import LineScript.Proofs.ReadingOrder
import LineScript.Proofs.Reflexivity
import LineScript.Proofs.Operand
import LineScript.Proofs.Console.Completion
import LineScript.Proofs.Console.Recall
import LineScript.Proofs.Literal.Forms
import LineScript.Proofs.Literal.Integer
import LineScript.Proofs.Literal.Number
import LineScript.Proofs.Seeding
import LineScript.Proofs.Extension
import LineScript.Proofs.Cutting
import LineScript.Proofs.Stores
