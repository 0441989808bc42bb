import Minimk.Runtime.Machine
import Minimk.Socket.Store

namespace Minimk.Socket

open Abort Minimk.Runtime

-- A call that an operation makes: one of `minimk_syscall_*`, or a suspension.
inductive Request where
  | socket (domain type protocol : Int32)
  | setnonblock (fd : Int32)
  | nosigpipe (fd : Int32)
  | closesocket (fd : Int32)
  | accept (fd : Int32)
  | recv (fd : Int32) (count : UInt64)
  | send (fd : Int32) (count : UInt64)
  | connect (fd : Int32) (address port : String)
  | getsockoptError (fd : Int32)
  | bind (fd : Int32) (address port : String)
  | listen (fd : Int32) (backlog : Int32)
  | setsockoptReuseaddr (fd : Int32)
  | suspend (direction : Direction) (fd : Int32) (nanosec : UInt64)
  deriving DecidableEq

-- What a call returns, with the output arguments of those that have one.
structure Reply where
  rv : Error
  fd : Int32
  amount : UInt64
  error : Error
  deriving DecidableEq

-- Where an operation on an entry of the table stands: the call it is about to make with its fd. A
-- transfer that is suspended has in the caller's counter what its last system call has stored.
inductive Point where
  | acceptCall
  | acceptSuspend
  | transferCall (direction : Direction) (count : UInt64)
  | transferSuspend (direction : Direction) (count amount : UInt64)
  | connectCall (address port : String)
  | connectSuspend
  | connectGetsockopt
  | destroyClose
  | bindCall (address port : String)
  | listenCall (backlog : Int32)
  | setsockoptReuseaddrCall
  deriving DecidableEq

-- Where create and accept stand with the descriptor they have obtained.
inductive OpenPoint where
  | setnonblock
  | nosigpipe
  | closesocket (rv : Error)
  deriving DecidableEq

-- The local state of an operation; it keeps a pointer to the entry and no copy of it.
inductive Frame where
  | idle
  | createSocket (domain type protocol : Int32)
  | opened (fd : Int32) (point : OpenPoint)
  | on (info : InfoIdx) (point : Point)
  deriving DecidableEq

-- How an operation goes on: another call, its return (`amount` is what it stores in the
-- caller's counter, if it does), or the return of the handle of a new entry.
inductive Next where
  | call (frame : Frame)
  | done (rv : Error) (amount : Option UInt64)
  | issued (info : InfoIdx)
  deriving DecidableEq

def SocketInfo.timeout (info : SocketInfo) : Direction → UInt64
  | .read => info.readTimeout
  | .write => info.writeTimeout

def Point.request (info : SocketInfo) : Point → Request
  | .acceptCall => .accept info.fd
  | .acceptSuspend => .suspend .read info.fd (info.timeout .read)
  | .transferCall .read count => .recv info.fd count
  | .transferCall .write count => .send info.fd count
  | .transferSuspend direction _ _ => .suspend direction info.fd (info.timeout direction)
  | .connectCall address port => .connect info.fd address port
  | .connectSuspend => .suspend .write info.fd (info.timeout .write)
  | .connectGetsockopt => .getsockoptError info.fd
  | .destroyClose => .closesocket info.fd
  | .bindCall address port => .bind info.fd address port
  | .listenCall backlog => .listen info.fd backlog
  | .setsockoptReuseaddrCall => .setsockoptReuseaddr info.fd

def OpenPoint.request (fd : Int32) : OpenPoint → Request
  | .setnonblock => .setnonblock fd
  | .nosigpipe => .nosigpipe fd
  | .closesocket _ => .closesocket fd

def Frame.request (table : SocketTable) : Frame → Option Request
  | .idle => none
  | .createSocket domain type protocol => some (.socket domain type protocol)
  | .opened fd point => some (point.request fd)
  | .on info point => some (point.request (table.sockets info))

-- What a suspension at the point waits for.
def Point.awaits : Point → Option Direction
  | .acceptSuspend => some .read
  | .transferSuspend direction _ _ => some direction
  | .connectSuspend => some .write
  | _ => none

def Point.suspends (point : Point) : Bool := point.awaits.isSome

-- The entry that a handle names, or the return of the operation.
def onFound (table : SocketTable) (handle : UInt64) (point : Point) :
    Except Assertion (SocketTable × Next) := do
  let (rv, found) ← table.infoFind handle
  match found with
  | none => return (table, .done rv none)
  | some info => return (table, .call (.on info point))

def create (table : SocketTable) (domain type protocol : Int32) :
    Except Assertion (SocketTable × Next) :=
  .ok (table, .call (.createSocket domain type protocol))

def accept (table : SocketTable) (listenerSock : UInt64) : Except Assertion (SocketTable × Next) :=
  onFound table listenerSock .acceptCall

def recv (table : SocketTable) (sock count : UInt64) : Except Assertion (SocketTable × Next) :=
  onFound table sock (.transferCall .read count)

def send (table : SocketTable) (sock count : UInt64) : Except Assertion (SocketTable × Next) :=
  onFound table sock (.transferCall .write count)

def connect (table : SocketTable) (sock : UInt64) (address port : String) :
    Except Assertion (SocketTable × Next) :=
  onFound table sock (.connectCall address port)

def destroy (table : SocketTable) (sock : UInt64) : Except Assertion (SocketTable × Next) :=
  if sock = MINIMK_SOCKET_INVALID then .ok (table, .done .success none)
  else onFound table sock .destroyClose

def bind (table : SocketTable) (sock : UInt64) (address port : String) :
    Except Assertion (SocketTable × Next) :=
  onFound table sock (.bindCall address port)

def listen (table : SocketTable) (sock : UInt64) (backlog : Int32) :
    Except Assertion (SocketTable × Next) :=
  onFound table sock (.listenCall backlog)

def setsockoptReuseaddr (table : SocketTable) (sock : UInt64) :
    Except Assertion (SocketTable × Next) :=
  onFound table sock .setsockoptReuseaddrCall

inductive Operation where
  | create (domain type protocol : Int32)
  | accept (listenerSock : UInt64)
  | recv (sock count : UInt64)
  | send (sock count : UInt64)
  | connect (sock : UInt64) (address port : String)
  | destroy (sock : UInt64)
  | bind (sock : UInt64) (address port : String)
  | listen (sock : UInt64) (backlog : Int32)
  | setsockoptReuseaddr (sock : UInt64)
  | setReadTimeout (sock nanosec : UInt64)
  | setWriteTimeout (sock nanosec : UInt64)
  deriving DecidableEq

-- An operation up to the first call it makes.
def Operation.start (table : SocketTable) : Operation → Except Assertion (SocketTable × Next)
  | .create domain type protocol => Socket.create table domain type protocol
  | .accept listenerSock => Socket.accept table listenerSock
  | .recv sock count => Socket.recv table sock count
  | .send sock count => Socket.send table sock count
  | .connect sock address port => Socket.connect table sock address port
  | .destroy sock => Socket.destroy table sock
  | .bind sock address port => Socket.bind table sock address port
  | .listen sock backlog => Socket.listen table sock backlog
  | .setsockoptReuseaddr sock => Socket.setsockoptReuseaddr table sock
  | .setReadTimeout sock nanosec => do
      let (rv, table) ← table.setReadTimeout sock nanosec
      return (table, .done rv none)
  | .setWriteTimeout sock nanosec => do
      let (rv, table) ← table.setWriteTimeout sock nanosec
      return (table, .done rv none)

-- One turn of the loop of `minimk_socket_recv_impl` and `minimk_socket_send_impl`, from what
-- the system call returned; none is a suspension.
def transferTurn (rv : Error) (amount : UInt64) : Option (Error × UInt64) :=
  if rv ≠ .eagain then some (rv, amount) else none

-- The rest of the turn, from what the suspension returned, with the counter as the call has left
-- it; none is another turn.
def transferResumed (rv : Error) (amount : UInt64) : Option (Error × UInt64) :=
  if rv ≠ .success then some (rv, amount) else none

-- An operation on an entry from the return of one call up to the next.
def Point.resume (table : SocketTable) (info : InfoIdx) : Point → Reply → SocketTable × Next
  | .acceptCall, reply =>
      if reply.rv = .eagain then (table, .call (.on info .acceptSuspend))
      else if reply.rv ≠ .success then (table, .done reply.rv none)
      else (table, .call (.opened reply.fd .setnonblock))
  | .acceptSuspend, reply =>
      if reply.rv ≠ .success then (table, .done reply.rv none)
      else (table, .call (.on info .acceptCall))
  | .transferCall direction count, reply =>
      match transferTurn reply.rv reply.amount with
      | some (rv, amount) => (table, .done rv (some amount))
      | none => (table, .call (.on info (.transferSuspend direction count reply.amount)))
  | .transferSuspend direction count amount, reply =>
      match transferResumed reply.rv amount with
      | some (rv, amount) => (table, .done rv (some amount))
      | none => (table, .call (.on info (.transferCall direction count)))
  | .connectCall _ _, reply =>
      if reply.rv = .success then (table, .done .success none)
      else if reply.rv ≠ .einprogress then (table, .done reply.rv none)
      else (table, .call (.on info .connectSuspend))
  | .connectSuspend, reply =>
      if reply.rv ≠ .success then (table, .done reply.rv none)
      else (table, .call (.on info .connectGetsockopt))
  | .connectGetsockopt, reply =>
      if reply.rv ≠ .success then (table, .done reply.rv none)
      else (table, .done reply.error none)
  | .destroyClose, reply => (table.infoForget info, .done reply.rv none)
  | .bindCall _ _, reply | .listenCall _, reply | .setsockoptReuseaddrCall, reply =>
      (table, .done reply.rv none)

-- The common tail of create and accept. A failure of SO_NOSIGPIPE is ignored.
def OpenPoint.resume (table : SocketTable) (fd : Int32) :
    OpenPoint → Reply → Except Assertion (SocketTable × Next)
  | .setnonblock, reply =>
      if reply.rv ≠ .success then .ok (table, .call (.opened fd (.closesocket reply.rv)))
      else .ok (table, .call (.opened fd .nosigpipe))
  | .nosigpipe, _ => do
      let (rv, found, table) ← table.infoCreate fd
      match found with
      | none => return (table, .call (.opened fd (.closesocket rv)))
      | some info => return (table, .issued info)
  | .closesocket rv, _ => .ok (table, .done rv none)

def Frame.resume (table : SocketTable) : Frame → Reply → Except Assertion (SocketTable × Next)
  | .idle, _ => .ok (table, .call .idle)
  | .createSocket _ _ _, reply =>
      if reply.rv ≠ .success then .ok (table, .done reply.rv none)
      else .ok (table, .call (.opened reply.fd .setnonblock))
  | .opened fd point, reply => point.resume table fd reply
  | .on info point, reply => .ok (point.resume table info reply)

end Minimk.Socket
