import Csf.Lib.Reach
import Csf.Lib.Window
import Csf.Pipeline.Model

/-!
# A TCP connection and its event

The send buffer of `CONN_INFO` with `tcp_send_back` and `tcp_send_back_handler`, and the handlers that libevent calls
for a connection, from `tcp.c`. `data_sent` and `data_stored` are offsets into `data_buf`. What `read`, `write`,
`fcntl`, `event_add` and the protocol return are inputs of the handlers. `EWOULDBLOCK` and `EAGAIN` are one value.

libevent calls are modelled by what is registered: the events and the callback of `event_set`, and the timeout with
which the event was added, if it is pending. The event is not persistent: it is no longer pending when its callback
runs.
-/

namespace Csf

open Lib

def sendBufLen : Nat := 1024

def protocolDisconnect : Int := -2

/-- The values of `errno` that the handlers tell apart. -/
inductive Errno
  | eintr
  | ewouldblock
  | econnreset
  | other (code : Nat)
  deriving DecidableEq

/-- What `write` returns. -/
inductive WriteResult
  | wrote (n : Nat)
  | failed (e : Errno)
  deriving DecidableEq

/-- The callbacks that are registered for a connection. -/
inductive Callback
  | tcpConnHandler
  | tcpEventHandler
  deriving DecidableEq

structure TcpConn where
  type : ConnType
  /-- `fd` is not `-1` -/
  fdOpen : Bool
  dataBuf : List UInt8
  dataSent : Nat
  dataStored : Nat
  evRead : Bool
  evWrite : Bool
  callback : Callback
  /-- the timeout with which the event is pending -/
  armed : Option UInt32
  /-- the number of calls of `conn_state_cleanup` -/
  cleanups : Nat
  /-- the bytes written to the socket -/
  written : List UInt8

def TcpConn.pending (c : TcpConn) : List UInt8 := window c.dataBuf c.dataSent c.dataStored

def eventDel (c : TcpConn) : TcpConn := { c with armed := none }

/-- `event_set` writes the kinds and the callback. An event that is pending is taken to stay so: `tcpMade` sets the event
again that a send in the session start has added. -/
def eventSet (read write : Bool) (callback : Callback) (c : TcpConn) : TcpConn :=
  { c with evRead := read, evWrite := write, callback := callback }

def eventAdd (timeout : UInt32) (added : Bool) (c : TcpConn) : TcpConn :=
  if added then { c with armed := some timeout } else c

/-- One call of `tcp_send_back`, with what `write` and `event_add` return in it. -/
structure Send where
  msg : List UInt8
  write : WriteResult
  added : Bool
  deriving DecidableEq

/-- `memcpy` to the end of the waiting bytes. -/
def store (data : List UInt8) (c : TcpConn) : TcpConn :=
  { c with dataBuf := overwrite c.dataBuf c.dataStored data, dataStored := c.dataStored + data.length }

/-- `tcp_send_back` after its `write`: `data` is what is left of the message. -/
def sendRest (timeout : UInt32) (added : Bool) (data : List UInt8) (c : TcpConn) : Int × TcpConn :=
  if c.dataStored + data.length ≤ sendBufLen then
    if c.dataStored = 0 then
      let c := eventAdd timeout added (eventSet true true .tcpEventHandler (eventDel c))
      if added then (0, store data c) else (-1, c)
    else (0, store data c)
  else (-1, c)

def tcpSendBack (timeout : UInt32) (x : Send) (c : TcpConn) : Int × TcpConn :=
  if c.type ≠ .tcp then (-1, c)
  else if c.dataStored = 0 then
    match x.write with
    | .failed .eintr | .failed .ewouldblock => sendRest timeout x.added x.msg c
    | .failed _ => (-1, c)
    | .wrote n =>
      let c := { c with written := c.written ++ x.msg.take n }
      if x.msg.length = n then (0, c) else sendRest timeout x.added (x.msg.drop n) c
  else sendRest timeout x.added x.msg c

/-- The end of `tcp_send_back_handler`, after its loop. -/
def sendBackDone (timeout : UInt32) (added : Bool) (c : TcpConn) : TcpConn :=
  eventAdd timeout added (eventSet true false .tcpEventHandler (eventDel
    { c with dataBuf := c.dataBuf.set 0 0, dataSent := 0, dataStored := 0 }))

/-- `tcp_send_back_handler` with the results of its calls of `write`; whether it has returned when these are used up. -/
def tcpSendBackHandler (timeout : UInt32) (added : Bool) (ws : List WriteResult) (c : TcpConn) : Bool × TcpConn :=
  if c.dataSent < c.dataStored then
    match ws with
    | [] => (false, c)
    | .wrote n :: ws => tcpSendBackHandler timeout added ws
        { c with written := c.written ++ c.pending.take n, dataSent := c.dataSent + n }
    | .failed .eintr :: ws => tcpSendBackHandler timeout added ws c
    | .failed .ewouldblock :: _ => (true, eventAdd timeout added c)
    | .failed _ :: _ => (true, sendBackDone timeout added c)
  else (true, sendBackDone timeout added c)

/-! ### The handlers of a connection -/

def tcpConnClose (c : TcpConn) : TcpConn := if c.type ≠ .tcp then c else { c with fdOpen := false }

def connCleanup (c : TcpConn) : TcpConn := { eventDel c with cleanups := c.cleanups + 1 }

/-- What `read` returns, and for data what the protocol does with it: its calls of `tcp_send_back` and the value that
`data_received` returns. -/
inductive ReadResult
  | failed (e : Errno)
  | eof
  | data (sends : List Send) (rc : Int)
  deriving DecidableEq

/-- Calls of `tcp_send_back` one after the other. -/
def sendAll (timeout : UInt32) (xs : List Send) (c : TcpConn) : TcpConn :=
  xs.foldl (fun c x => (tcpSendBack timeout x c).2) c

/-- The loop of `tcp_conn_handler` with the results of its calls of `read`; whether it has returned when these are
used up. -/
def readLoop (timeout : UInt32) (added : Bool) : List ReadResult → TcpConn → Bool × TcpConn
  | [], c => (false, c)
  | .failed .ewouldblock :: _, c => (true, eventAdd timeout added c)
  | .failed .econnreset :: _, c => (true, connCleanup (tcpConnClose c))
  | .failed _ :: _, c => (true, c)
  | .eof :: _, c => (true, connCleanup (tcpConnClose c))
  | .data sends rc :: rs, c =>
    let c := sendAll timeout sends c
    if rc = protocolDisconnect then (true, connCleanup (tcpConnClose c)) else readLoop timeout added rs c

inductive TcpEvent
  | timeout
  | read
  | write
  | readWrite
  deriving DecidableEq

/-- What the environment of one handler answers. -/
structure Answers where
  /-- the first call of `fcntl` succeeds -/
  fcntlOk : Bool
  reads : List ReadResult
  writes : List WriteResult
  /-- the handler's own call of `event_add` succeeds -/
  added : Bool
  deriving DecidableEq

def tcpConnHandler (timeout : UInt32) (event : TcpEvent) (env : Answers) (c : TcpConn) : Bool × TcpConn :=
  if event = .timeout then (true, connCleanup (tcpConnClose c))
  else if env.fcntlOk = false then (true, c)
  else readLoop timeout env.added env.reads c

def tcpEventHandler (timeout : UInt32) (event : TcpEvent) (env : Answers) (c : TcpConn) : Bool × TcpConn :=
  if event = .read then tcpConnHandler timeout event env c
  else if event = .write then tcpSendBackHandler timeout env.added env.writes c
  else tcpConnHandler timeout event env c

/-- libevent delivers an event: it is no longer pending, and its callback runs. -/
def deliver (timeout : UInt32) (event : TcpEvent) (env : Answers) (c : TcpConn) : Bool × TcpConn :=
  match c.callback with
  | .tcpConnHandler => tcpConnHandler timeout event env (eventDel c)
  | .tcpEventHandler => tcpEventHandler timeout event env (eventDel c)

/-- The events that a connection can get: its event is pending, and covers what is delivered. -/
def Deliverable (c : TcpConn) : TcpEvent → Prop
  | .timeout => c.armed.isSome
  | .read => c.armed.isSome ∧ c.evRead = true
  | .write => c.armed.isSome ∧ c.evWrite = true
  | .readWrite => c.armed.isSome ∧ c.evRead = true ∧ c.evWrite = true

/-- `tcp_socket_event_handler` sets up a connection in a block whose buffer held `buf`, up to `connection_made`. -/
def tcpAccepted (buf : List UInt8) : TcpConn where
  type := .tcp
  fdOpen := true
  dataBuf := buf.set 0 0
  dataSent := 0
  dataStored := 0
  evRead := false
  evWrite := false
  callback := .tcpConnHandler
  armed := none
  cleanups := 0
  written := []

/-- `tcp_socket_event_handler` after the protocol's session start made the calls `sends` of `tcp_send_back`. -/
def tcpMade (timeout : UInt32) (buf : List UInt8) (sends : List Send) : TcpConn :=
  eventAdd timeout true (eventSet true false .tcpConnHandler (sendAll timeout sends (tcpAccepted buf)))

end Csf
