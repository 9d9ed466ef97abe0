import SmallLisp.Main
import SmallLisp.Proofs.Builtin.Refusals
import SmallLisp.Proofs.Evaluator.Data
import SmallLisp.Proofs.Evaluator.Footprint
import SmallLisp.Proofs.Evaluator.Indexing
import SmallLisp.Proofs.Evaluator.Log
import SmallLisp.Proofs.Evaluator.Quotation
import SmallLisp.Proofs.Evaluator.Traversal
import SmallLisp.Proofs.Reader.Diagnosis
import SmallLisp.Proofs.Reader.Printed
import SmallLisp.Proofs.Registry.Course
import SmallLisp.Proofs.Session.Errors
import SmallLisp.Proofs.Session.Reachable
import SmallLisp.Proofs.Shell.Dialogue
import SmallLisp.Proofs.Value.Equality
import SmallLisp.Proofs.Reader.Trailing
import SmallLisp.Proofs.Session.RepeatToken
import SmallLisp.Proofs.Table.Writes
import SmallLisp.Proofs.Evaluator.Accumulator
import SmallLisp.Interrupt
import SmallLisp.Proofs.Evaluator.Interruption
import SmallLisp.Proofs.Session.Interruption
