import Samvada.Lib.Resumable
import Samvada.Lib.Simulation
import Samvada.Lib.Octets
import Samvada.Lib.Framing
import Samvada.Lib.Lines
import Samvada.Frame
import Samvada.Marshal
import Samvada.Unmarshal
import Samvada.Decoder
import Samvada.Auth
import Samvada.Errno
import Samvada.Kernel
import Samvada.Session
import Samvada.Native
import Samvada.Decoded
import Samvada.FrameStream
import Samvada.Encode
import Samvada.RoundTrip
import Samvada.Progress
import Samvada.Moves
import Samvada.Wire
import Samvada.Runs
import Samvada.Handshake
import Samvada.Sasl
import Samvada.ControlBuffer
import Samvada.Attribution
import Samvada.Conservation
import Samvada.Requests
import Samvada.Reference
import Samvada.Grammar
import Samvada.FieldOrder
import Samvada.Lib.Probe
import Samvada.Reads
import Samvada.Untouched
import Samvada.TakeDevice
import Samvada.Deadline
import Samvada.Counting
import Samvada.Reconnect
import Samvada.Public
import Samvada.Lifecycle
import Samvada.Logind
import Samvada.BigEndian
import Samvada.Verdicts
import Samvada.Rights
import Samvada.Sasl
import Samvada.Compaction
import Samvada.BoundedRead
import Samvada.SessionPath
import Samvada.CyrScan
import Samvada.HeldTable
import Samvada.Healing
import Samvada.Line
import Samvada.Sending
import Samvada.Mailbox
import Samvada.Filtering
import Samvada.Replies
import Samvada.Output
import Samvada.Handing
import Samvada.Consumer
import Samvada.Budgets
import Samvada.InStep
import Samvada.DbusDecode
import Samvada.DecodeRequests
