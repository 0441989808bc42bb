import Minimk.Errno
import Minimk.Time
import Minimk.RoundRobin
import Minimk.RoundRobin.Rotation
import Minimk.Saturation
import Minimk.Integer.Checked
import Minimk.Runtime.Machine
import Minimk.Runtime.Scheduler.Theorems
import Minimk.Runtime.Machine.Moves
import Minimk.Runtime.Machine.Invariant
import Minimk.Runtime.Switch
import Minimk.Runtime.Switch.Theorems
import Minimk.Runtime.Lifecycle
import Minimk.Runtime.Lifecycle.Theorems
import Minimk.Runtime.Safety
import Minimk.Runtime.Fairness
import Minimk.Runtime.Phases
import Minimk.Runtime.Capacity
import Minimk.Runtime.Deadlines
import Minimk.Runtime.PollTimeout
import Minimk.Runtime.Lifecycle.Memory
import Minimk.Alignment
import Minimk.Runtime.Stack.Theorems
import Minimk.Runtime.Process
import Minimk.Runtime.Process.Shifts
import Minimk.Runtime.Process.Guards
import Minimk.Runtime.Process.Theorems
import Minimk.Tasks
import Minimk.Runtime.Refinement
import Minimk.Runtime.Response
import Minimk.Runtime.Pass
import Minimk.Runtime.StartOrder
import Minimk.Runtime.Rotation
import Minimk.Runtime.SleepOrder
import Minimk.Runtime.Wakeup.Theorems
import Minimk.Runtime.Wakeup.Outcome
import Minimk.Runtime.Wakeup.PollError
import Minimk.Runtime.PollArray
import Minimk.Runtime.Wakeup.Timeout
import Minimk.Socket.Handle.Theorems
import Minimk.Socket.Handle.Codec
import Minimk.Socket.Info.Theorems
import Minimk.Socket.Store.Theorems
import Minimk.Amd64
import Minimk.Custody
import Minimk.Fifo
import Minimk.Syscall
import Minimk.Syscall.Address
import Minimk.Io
import Minimk.Socket.Operation.Theorems
import Minimk.Socket.System
import Minimk.Socket.System.Moves
import Minimk.Socket.System.Invariant
import Minimk.Socket.Ownership.Theorems
import Minimk.Socket.Liveness.Theorems
import Minimk.Socket.Stream
import Minimk.Socket.Stream.Theorems
import Minimk.Chunked
import Minimk.Io.Script
import Minimk.Io.Script.Theorems
import Minimk.Socket.Call
import Minimk.Socket.Call.Length
import Minimk.Socket.Call.Timeout
import Minimk.Socket.Call.Connect
import Minimk.Socket.Registered
import Minimk.Socket.Registered.Theorems
import Minimk.Socket.Safety
import Minimk.Socket.Nonblocking
import Minimk.Syscall.Posix
import Minimk.Socket.Os
import Minimk.Socket.Os.Theorems
import Minimk.Socket.Echo
import Minimk.Socket.Echo.Theorems
import Minimk.Socket.Server
import Minimk.Socket.Server.Code
import Minimk.Socket.Server.Invariant
import Minimk.Socket.Server.Turn
import Minimk.Socket.Server.Theorems
