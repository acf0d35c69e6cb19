import MoSidecar.Machine.Run
import MoSidecar.Machine.Blocks
import MoSidecar.Machine.Threads
import MoSidecar.Machine.Parts
import MoSidecar.Machine.Shared
import MoSidecar.Protocol.Status
import MoSidecar.Protocol.Wire
import MoSidecar.StreamInput.Slot
import MoSidecar.StreamInput.Upload
import MoSidecar.StreamInput.Handshake
import MoSidecar.StreamInput.Acks
import MoSidecar.StreamInput.Truncation
import MoSidecar.StreamInput.Scan
import MoSidecar.Execution.ResultBatch
import MoSidecar.Execution.Entry
import MoSidecar.Execution.Sections
import MoSidecar.Execution.Lifecycle
import MoSidecar.Execution.ResultStream
import MoSidecar.Execution.Handlers
import MoSidecar.Execution.Quiescence
import MoSidecar.Registry.Admission
import MoSidecar.Registry.Tickets
import MoSidecar.Registry.Records
import MoSidecar.Registry.Invariant
import MoSidecar.Registry.Ledger
import MoSidecar.Registry.Preparation
import MoSidecar.Registry.Sections
import MoSidecar.Server.Program
import MoSidecar.Server.Parts
import MoSidecar.Server.Sections
import MoSidecar.Server.Invariant
import MoSidecar.Server.Removal
import MoSidecar.Server.Retry
import MoSidecar.Server.Ownership
import MoSidecar.Server.Sealing
import MoSidecar.Registry.Leases
import MoSidecar.Server.Accounting
import MoSidecar.Server.Failure
import MoSidecar.Protobuf.Fields
import MoSidecar.Protocol.Envelopes
import MoSidecar.Protocol.ResultSchema
import MoSidecar.Protocol.Grammar
import MoSidecar.Protobuf.Writing
import MoSidecar.Protocol.Serialization
import MoSidecar.Protocol.RoundTrip
import MoSidecar.Protocol.SchemaRoundTrip
import MoSidecar.Protocol.Frames
import MoSidecar.Registry.Handles
import MoSidecar.Registry.Charge
import MoSidecar.Layout.Bitmap
import MoSidecar.Layout.Delimiters
import MoSidecar.Config.Endpoint
import MoSidecar.Config.Runtime
import MoSidecar.Layout.LittleEndian
import MoSidecar.Native.Types
import MoSidecar.StreamInput.Rendezvous
import MoSidecar.Native.Vector
import MoSidecar.Native.Reading
import MoSidecar.Layout.Chunks
import MoSidecar.Native.Scan
import MoSidecar.Native.Preservation
import MoSidecar.Native.HostTable
import MoSidecar.Native.Cells
import MoSidecar.Native.HostReading
import MoSidecar.Native.Batches
import MoSidecar.Native.HostRows
import MoSidecar.Native.EncodedSize
import MoSidecar.Execution.Splitting
import MoSidecar.Native.Splitting
import MoSidecar.Native.RoundTrip
import MoSidecar.Native.ChunkReading
import MoSidecar.Native.LogicalRows
import MoSidecar.Native.PreparedTypes
import MoSidecar.Native.Agreement
import MoSidecar.Native.DecimalWidths
import MoSidecar.Protocol.Identities
import MoSidecar.Native.Dates
import MoSidecar.Native.HostCopies
import MoSidecar.Protocol.Positions
import MoSidecar.Execution.Waiting
import MoSidecar.Registry.Waiting
import MoSidecar.Execution.Endings
import MoSidecar.Server.Streams
import MoSidecar.Machine.Custody
import MoSidecar.Resolver.Names
import MoSidecar.Resolver.Resolution
import MoSidecar.Resolver.Relations
import MoSidecar.Machine.Slots
import MoSidecar.Server.Refinement
import MoSidecar.Server.Rest
import MoSidecar.Native.Rows
import MoSidecar.Server.Delivery
import MoSidecar.Server.Capacity
import MoSidecar.StreamInput.Rows
import MoSidecar.Server.Capacity
