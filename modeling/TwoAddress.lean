import TwoAddress.Word
import TwoAddress.Register
import TwoAddress.Register.Set
import TwoAddress.Opcode.Mnemonic
import TwoAddress.Opcode
import TwoAddress.Operation
import TwoAddress.Condition
import TwoAddress.Size
import TwoAddress.Fault
import TwoAddress.Effect
import TwoAddress.Address
import TwoAddress.Instruction
import TwoAddress.Instruction.Text
import TwoAddress.Scratch
import TwoAddress.Machine.Memory
import TwoAddress.Machine.Action
import TwoAddress.Machine
import TwoAddress.Register.Pair
import TwoAddress.Synthesis
import TwoAddress.Synthesis.Move
import TwoAddress.Synthesis.Arithmetic
import TwoAddress.Synthesis.Transfer
import TwoAddress.Synthesis.Control
import TwoAddress.Synthesis.Request
import TwoAddress.Session.Statistics
import TwoAddress.Session
import TwoAddress.Session.Log
import TwoAddress.Session.Command
import TwoAddress.Transcript
import TwoAddress.Terminal
import TwoAddress.CommandLine.Value
import TwoAddress.CommandLine.Grammar
import TwoAddress.CommandLine
import TwoAddress.Main
import TwoAddress.Proofs.Protocol
import TwoAddress.Proofs.RegisterSets
import TwoAddress.Proofs.RegisterNames
import TwoAddress.Proofs.Runs
import TwoAddress.Proofs.Granted
import TwoAddress.Proofs.Borrowing
import TwoAddress.Proofs.Aliasing
import TwoAddress.Proofs.FrameSlots
import TwoAddress.Proofs.ByteStore
import TwoAddress.Proofs.MemoryLaws
import TwoAddress.Proofs.EmittedCode
import TwoAddress.Proofs.ThreeOperands
import TwoAddress.Proofs.Assignments
import TwoAddress.Proofs.Transfers
import TwoAddress.Proofs.Appended
import TwoAddress.Proofs.WellFormed
import TwoAddress.Proofs.AddressComputation
import TwoAddress.Proofs.FrameNotes
import TwoAddress.Proofs.WideValues
import TwoAddress.Proofs.WideConstants
import TwoAddress.Proofs.Lending
import TwoAddress.Proofs.SetHistories
import TwoAddress.Proofs.Rotation
import TwoAddress.Proofs.Lockstep
import TwoAddress.Proofs.Tallies
import TwoAddress.Proofs.MethodState
import TwoAddress.Proofs.Reports
import TwoAddress.Proofs.Accounts
import TwoAddress.Proofs.Numbering
import TwoAddress.Proofs.Replies
import TwoAddress.Proofs.Supply
import TwoAddress.Proofs.Logging
import TwoAddress.Proofs.InertRecords
import TwoAddress.Proofs.Progress
import TwoAddress.Proofs.RegisterArithmetic
import TwoAddress.Proofs.ImmediateOperands
import TwoAddress.Proofs.TwoOperands
import TwoAddress.Proofs.MemoryOperands
import TwoAddress.Proofs.Refusals
import TwoAddress.Proofs.TypedLoads
import TwoAddress.Proofs.TypedStores
