import StageScript.Main
import StageScript.Source.Lines
import StageScript.Proofs.Reading
import StageScript.Proofs.Recursion
import StageScript.Proofs.Spelling
import StageScript.Proofs.Precedence
import StageScript.Proofs.Grammar
import StageScript.Proofs.Recognizer
import StageScript.Proofs.Acceptance
import StageScript.Proofs.ViablePrefix
import StageScript.Proofs.Lines
import StageScript.Proofs.Writing
import StageScript.Proofs.RoundTrip
import StageScript.Proofs.Tiling
import StageScript.Proofs.Trace
import StageScript.Proofs.Unfolding
import StageScript.Proofs.Accounting
import StageScript.Proofs.Consultation
import StageScript.Proofs.LineStart
import StageScript.Proofs.Continuation
import StageScript.Proofs.Composition
import StageScript.Proofs.ComposedStage
import StageScript.Proofs.Quoting
import StageScript.Proofs.Likeness
import StageScript.Proofs.BlankLines
import StageScript.Proofs.NarrowForms
import StageScript.Proofs.Remainder
import StageScript.Proofs.Stages
import StageScript.Proofs.Failures
import StageScript.Proofs.LineOrder
import StageScript.Proofs.Attribution
import StageScript.Proofs.PrintedLines
import StageScript.Proofs.Agreement
import StageScript.Proofs.TokenClasses
import StageScript.Proofs.Respacing
import StageScript.Proofs.NodeBuilder
import StageScript.Proofs.Contexts
import StageScript.Proofs.Parentheses
import StageScript.Proofs.Irrelevance
import StageScript.Proofs.Sharing
import StageScript.Proofs.Magnitude
import StageScript.Proofs.Form
import StageScript.Proofs.TreeForm
import StageScript.Proofs.Distinctness
import StageScript.Proofs.Appending
import StageScript.Proofs.JumpLine
import StageScript.Proofs.Coercion
import StageScript.Proofs.AcceptedArguments
import StageScript.Proofs.NumberOrder
import StageScript.Proofs.Complements
import StageScript.Proofs.NumberReadings
import StageScript.Proofs.LineNumbers
import StageScript.Proofs.InsertionOrder
import StageScript.Proofs.ReportPlaces
