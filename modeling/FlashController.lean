import FlashController.Access
import FlashController.Address
import FlashController.Bank
import FlashController.Linker.FileTree
import FlashController.Linker.Install
import FlashController.Linker.Site
import FlashController.Machine
import FlashController.Machine.Mapped
import FlashController.Machine.Recorder
import FlashController.Machine.Simulator
import FlashController.Machine.Simulator.Effect
import FlashController.Machine.Simulator.State
import FlashController.Memory
import FlashController.Operation
import FlashController.Procedure
import FlashController.Procedure.Control
import FlashController.Procedure.Programming
import FlashController.Register
import FlashController.Register.Control
import FlashController.Register.OptionControl
import FlashController.Register.Setter
import FlashController.Register.Status
import FlashController.Reply
import FlashController.Script
import FlashController.Sector
import FlashController.Session
import FlashController.Signature
import FlashController.Text.Hexadecimal
import FlashController.Tiling
import FlashController.WaitStates
import FlashController.Width
import FlashController.Word
import FlashController.Proofs.Geometry
import FlashController.Proofs.Layout
import FlashController.Proofs.Linker.Installing
import FlashController.Proofs.Mapped.Mirroring
import FlashController.Proofs.Mapped.Replay
import FlashController.Proofs.Mapped.Scripts
import FlashController.Proofs.Moves
import FlashController.Proofs.Parts
import FlashController.Proofs.Recorder.Bracketing
import FlashController.Proofs.Recorder.Covering
import FlashController.Proofs.Recorder.Economy
import FlashController.Proofs.Recorder.Notes
import FlashController.Proofs.Recorder.Overflow
import FlashController.Proofs.Recorder.Pacing
import FlashController.Proofs.Recorder.Updating
import FlashController.Proofs.Relocking
import FlashController.Proofs.Run
import FlashController.Proofs.Script
import FlashController.Proofs.Setters
import FlashController.Proofs.Simulator.Access
import FlashController.Proofs.Simulator.Blocks
import FlashController.Proofs.Simulator.Burning
import FlashController.Proofs.Simulator.Call
import FlashController.Proofs.Simulator.Conduct
import FlashController.Proofs.Simulator.Diagnosis
import FlashController.Proofs.Simulator.Erasing
import FlashController.Proofs.Simulator.Exactness
import FlashController.Proofs.Simulator.Idle
import FlashController.Proofs.Simulator.Inertness
import FlashController.Proofs.Simulator.Latching
import FlashController.Proofs.Simulator.Lifetime
import FlashController.Proofs.Simulator.LockSafety
import FlashController.Proofs.Simulator.Locking
import FlashController.Proofs.Simulator.Noting
import FlashController.Proofs.Simulator.Operations
import FlashController.Proofs.Simulator.Ordering
import FlashController.Proofs.Simulator.Persistence
import FlashController.Proofs.Simulator.Polling
import FlashController.Proofs.Simulator.Programming
import FlashController.Proofs.Simulator.Protection
import FlashController.Proofs.Simulator.Representation
import FlashController.Proofs.Simulator.Separation
import FlashController.Proofs.Simulator.Stickiness
import FlashController.Proofs.Simulator.Storing
import FlashController.Proofs.Simulator.Timing
import FlashController.Proofs.Simulator.Update
import FlashController.Proofs.Simulator.Words
import FlashController.Proofs.Simulator.Writing
import FlashController.Proofs.Steps
import FlashController.Proofs.Tiling
import FlashController.Proofs.Trail
import FlashController.Proofs.WaitStates
import FlashController.Proofs.Waiting
