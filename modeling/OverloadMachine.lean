import OverloadMachine.Handler.Script
import OverloadMachine.Heap.Survey
import OverloadMachine.Machine
import OverloadMachine.Options.Text
import OverloadMachine.Program.Writer
import OverloadMachine.Proofs.Bindings
import OverloadMachine.Proofs.Budgets
import OverloadMachine.Proofs.CompoundAssignments
import OverloadMachine.Proofs.ControlFlow
import OverloadMachine.Proofs.CopiedOrder
import OverloadMachine.Proofs.DeclinedCalls
import OverloadMachine.Proofs.Definitions
import OverloadMachine.Proofs.ExactCounts
import OverloadMachine.Proofs.ExactSeparation
import OverloadMachine.Proofs.Failures
import OverloadMachine.Proofs.FieldWrites
import OverloadMachine.Proofs.GuardedMutation
import OverloadMachine.Proofs.HandedOperands
import OverloadMachine.Proofs.InstructionTexts
import OverloadMachine.Proofs.IntegerOperators
import OverloadMachine.Proofs.IntegerPowers
import OverloadMachine.Proofs.InterceptedCalls
import OverloadMachine.Proofs.NativeOperators
import OverloadMachine.Proofs.NegationOrders
import OverloadMachine.Proofs.NumericTexts
import OverloadMachine.Proofs.OperandChecks
import OverloadMachine.Proofs.OperandRelease
import OverloadMachine.Proofs.OperandStore
import OverloadMachine.Proofs.Refusals
import OverloadMachine.Proofs.RegisteredTables
import OverloadMachine.Proofs.Reruns
import OverloadMachine.Proofs.SavedOptions
import OverloadMachine.Proofs.ScratchSlot
import OverloadMachine.Proofs.SharedTables
import OverloadMachine.Proofs.Sharing
import OverloadMachine.Proofs.SignedProducts
import OverloadMachine.Proofs.Tallies
import OverloadMachine.Proofs.VectorEquality
import OverloadMachine.Proofs.VectorFree
import OverloadMachine.Proofs.VectorSteps
import OverloadMachine.Vector2.Operators
import OverloadMachine.Workspace
