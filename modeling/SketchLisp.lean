import SketchLisp.Main
import SketchLisp.Proofs.Double
import SketchLisp.Proofs.Grammar
import SketchLisp.Proofs.Rounding
import SketchLisp.Proofs.NumberText
import SketchLisp.Proofs.Scanning
import SketchLisp.Proofs.Words
import SketchLisp.Proofs.Nodes
import SketchLisp.Proofs.WrittenForm
import SketchLisp.Proofs.Extension
import SketchLisp.Proofs.Locality
import SketchLisp.Proofs.Contract
import SketchLisp.Proofs.Viability
import SketchLisp.Proofs.StandardNames
import SketchLisp.Proofs.History
import SketchLisp.Proofs.Values
import SketchLisp.Proofs.LanguageNames
import SketchLisp.Proofs.Repetition
import SketchLisp.Proofs.Passes
import SketchLisp.Proofs.Queue
import SketchLisp.Proofs.Recovery
import SketchLisp.Proofs.Sequences
import SketchLisp.Proofs.Signature
import SketchLisp.Proofs.Causes
import SketchLisp.Proofs.Renaming
import SketchLisp.Proofs.HeldProgram
import SketchLisp.Proofs.SourceTrees
import SketchLisp.Proofs.SingleRun
import SketchLisp.Proofs.Calls
import SketchLisp.Proofs.FailedDefinitions
import SketchLisp.Proofs.Replacement
import SketchLisp.Proofs.Independence
import SketchLisp.Proofs.FirstFailure
import SketchLisp.Proofs.SequencingLaws
import SketchLisp.Proofs.NamedOperands
import SketchLisp.Proofs.Resumption
import SketchLisp.Proofs.Separators
import SketchLisp.Proofs.Spans
import SketchLisp.Proofs.NumeralGrammar
import SketchLisp.Proofs.WordGrammar
import SketchLisp.Proofs.Arithmetic
import SketchLisp.Proofs.Folds
import SketchLisp.Proofs.ResultLines
import SketchLisp.Proofs.Sameness
import SketchLisp.Proofs.Pi
