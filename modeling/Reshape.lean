import Reshape.Assoc
import Reshape.Cast
import Reshape.DepthBound
import Reshape.Direct
import Reshape.Edit
import Reshape.Endpoint
import Reshape.Error
import Reshape.Host
import Reshape.InPlace.Movement
import Reshape.InPlace.Passage
import Reshape.InPlace.Run
import Reshape.InPlace.Shadow
import Reshape.Instruction
import Reshape.Number.Binary64
import Reshape.Number.Decimal
import Reshape.Number.Layout
import Reshape.Number.Numeral
import Reshape.Number.Shortest
import Reshape.Op
import Reshape.OperationSet
import Reshape.Outcome
import Reshape.Path
import Reshape.Proofs.Abort
import Reshape.Proofs.Addressed
import Reshape.Proofs.Agreement
import Reshape.Proofs.Anchored
import Reshape.Proofs.Boundary
import Reshape.Proofs.Broadcast
import Reshape.Proofs.Bundles
import Reshape.Proofs.CallChain
import Reshape.Proofs.Compilation
import Reshape.Proofs.Contract
import Reshape.Proofs.DecimalText
import Reshape.Proofs.Duality
import Reshape.Proofs.Erasure
import Reshape.Proofs.Factorization
import Reshape.Proofs.Failure
import Reshape.Proofs.Fusion
import Reshape.Proofs.History
import Reshape.Proofs.InPlace
import Reshape.Proofs.Independence
import Reshape.Proofs.Invocation
import Reshape.Proofs.JsonString
import Reshape.Proofs.JsonText
import Reshape.Proofs.Legible
import Reshape.Proofs.Lookup
import Reshape.Proofs.Mutation
import Reshape.Proofs.Nesting
import Reshape.Proofs.Numeral
import Reshape.Proofs.Overwriting
import Reshape.Proofs.Parts
import Reshape.Proofs.PathText
import Reshape.Proofs.Placement
import Reshape.Proofs.PlainRelocation
import Reshape.Proofs.Position
import Reshape.Proofs.Presence
import Reshape.Proofs.Provenance
import Reshape.Proofs.Quiet
import Reshape.Proofs.Recording
import Reshape.Proofs.Records
import Reshape.Proofs.Refresh
import Reshape.Proofs.Registration
import Reshape.Proofs.Registries
import Reshape.Proofs.Rejection
import Reshape.Proofs.Relabel
import Reshape.Proofs.Relocation
import Reshape.Proofs.Remaking
import Reshape.Proofs.Report
import Reshape.Proofs.Resolution
import Reshape.Proofs.Respelling
import Reshape.Proofs.Reversal
import Reshape.Proofs.Session
import Reshape.Proofs.Simulation
import Reshape.Proofs.Slot
import Reshape.Proofs.Soundness
import Reshape.Proofs.Substitution
import Reshape.Proofs.Tagging
import Reshape.Proofs.Unwrapping
import Reshape.Proofs.Walk
import Reshape.Proofs.WholeValue
import Reshape.Record
import Reshape.Relocate
import Reshape.Run
import Reshape.Store
import Reshape.Text.Blank
import Reshape.Text.DecimalDigit
import Reshape.Text.Hex
import Reshape.Text.Interval
import Reshape.Text.JsonString
import Reshape.Text.Printable
import Reshape.Text.Quoted
import Reshape.Value.Basic
import Reshape.Value.JsonText
import Reshape.Value.Literal
import Reshape.Value.Object
import Reshape.Value.Refresh
import Reshape.Value.Slot
import Reshape.Visits
import Reshape.Walk
import Reshape.Workspace
