import Miring.Program.Basic
import Miring.Program.Progress
import Miring.Program.Similar
import Miring.Program.Interleave
import Miring.Program.Monitor
import Miring.Program.Protocol
import Miring.Program.Memory
import Miring.Program.Robust
import Miring.Program.Effect
import Miring.Program.Bytes
import Miring.Ring.Window
import Miring.Sys
import Miring.Entry
import Miring.Dispatch.Access
import Miring.Types.RecvMsgOut
import Miring.Types.Descriptors
import Miring.Opcode.Basic
import Miring.Opcode.Files
import Miring.Opcode.Paths
import Miring.Opcode.Sockets
import Miring.Opcode.Control
import Miring.Opcode.Builders
import Miring.Opcode.Targets
import Miring.Opcode.Slots
import Miring.Dispatch.Handlers
import Miring.Dispatch.Observe
import Miring.Dispatch.Batch
import Miring.Dispatch.Links
import Miring.Ring.Memory
import Miring.Ring.Layout
import Miring.Ring.Squeue
import Miring.Ring.Cqueue
import Miring.Ring.Submit
import Miring.Ring.IoUring
import Miring.Ring.Sizing
import Miring.Ring.Client
import Miring.Dispatch.Transfer
import Miring.Dispatch.Touched
import Miring.Dispatch.Metadata
import Miring.Dispatch.Outputs
import Miring.Dispatch.Scatter
import Miring.Dispatch.Needs
import Miring.Dispatch.References
import Miring.Dispatch.Valid
import Miring.Dispatch.Certain
import Miring.Dispatch.Shared
import Miring.Opcode.Pointers
import Miring.Opcode.Arguments
import Miring.Register.Probe
import Miring.Stream.Ledger
import Miring.Stream.Refines
import Miring.Stream.Handles
import Miring.Stream.Submit
import Miring.Stream.Run
import Miring.Stream.History
import Miring.Stream.Completion
import Miring.Stream.Overflow
import Miring.Stream.Rounds
import Miring.Stream.Relabel
import Miring.Stream.Batching
import Miring.Stream.Visibility
import Miring.Stream.Accounting
import Miring.Stream.BufferSelect
import Miring.Stream.EntrySizes
import Miring.Concurrency.Submitters
import Miring.Concurrency.Spsc.Queues
import Miring.Concurrency.Spsc.Producer
import Miring.Concurrency.Spsc.Submitter
import Miring.Concurrency.Spsc.Consumer
import Miring.Concurrency.Spsc.Safety
import Miring.Concurrency.Transit
import Miring.Concurrency.Spsc.Pipeline
import Miring.Concurrency.BulkPush
import Miring.Concurrency.BulkPop
import Miring.Concurrency.Schedule
import Miring.Concurrency.SubmitStable
import Miring.Concurrency.Lifetime
import Miring.Concurrency.Sequential
import Miring.Concurrency.NoFaults
import Miring.Concurrency.Delivery
import Miring.Concurrency.Dangling
import Miring.Concurrency.Tight
