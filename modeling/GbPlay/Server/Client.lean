import Mathlib.Tactic.Common

/-!
# One Game Boy client of the server

`GameBoyClient` and a single call of its `exchangeByte`, as `client.ts` has
them.  An `Exchange` is the state that one call shares with the callbacks it
installs: the `sentByte` flag, the timer, the two socket listeners and the
promise.  It exists from the write on; the send delay before the write is part
of the models that drive it.

The `on…` functions are the callbacks.  Each is the identity once the listener,
timer or promise it works on is gone, as removing a listener, clearing a timer
and settling a promise twice are in Node.
-/

namespace GbPlay.Server.Client

abbrev Byte := UInt8

/-- `tx & 0xFF` of an integer. -/
def lowByte (tx : Int) : Byte := UInt8.ofBitVec (BitVec.ofInt 8 tx)

inductive SocketState
  | connected
  | destroyed
  | closed
  deriving DecidableEq, Repr

def SocketState.destroy : SocketState → SocketState
  | .connected => .destroyed
  | s => s

@[simp] theorem SocketState.destroy_ne_connected (s : SocketState) :
    s.destroy ≠ .connected := by
  cases s <;> simp [destroy]

structure GameBoyClient where
  socket : SocketState := .connected
  lastReceivedByte : Byte := 0
  deriving DecidableEq, Repr

/-- `disconnect`: `this.socket.destroy()`. -/
def GameBoyClient.disconnect (c : GameBoyClient) : GameBoyClient :=
  { c with socket := c.socket.destroy }

@[simp] theorem GameBoyClient.disconnect_socket (c : GameBoyClient) :
    c.disconnect.socket = c.socket.destroy := rfl

@[simp] theorem GameBoyClient.disconnect_lastReceivedByte (c : GameBoyClient) :
    c.disconnect.lastReceivedByte = c.lastReceivedByte := rfl

inductive Timer
  | armed
  | fired
  | cleared
  deriving DecidableEq, Repr

inductive Outcome
  | resolved (rx : Byte)
  | rejected
  deriving DecidableEq, Repr

/-- What one `exchangeByte` call shares with its callbacks. -/
structure Exchange where
  sentByte : Bool
  timeout : Timer
  closeListener : Bool
  dataListener : Bool
  outcome : Option Outcome
  deriving DecidableEq, Repr

namespace Exchange

/-- The call right after its `socket.write`. -/
def start : Exchange :=
  { sentByte := false, timeout := .armed, closeListener := true, dataListener := true,
    outcome := none }

def cleanup (e : Exchange) : Exchange :=
  { e with timeout := .cleared, closeListener := false, dataListener := false }

/-- `resolve` or `reject`: only the first one counts. -/
def settle (e : Exchange) (o : Outcome) : Exchange :=
  { e with outcome := e.outcome.or (some o) }

/-- The listener on "close". -/
def onClose (e : Exchange) : Exchange :=
  if e.closeListener then e.cleanup.settle .rejected else e

/-- The callback of `socket.write`. -/
def onWrite (e : Exchange) (err : Bool) : Exchange :=
  if err then e.cleanup.settle .rejected else { e with sentByte := true }

/-- The call waits for its reply: nothing has settled it and its listeners are
in place. -/
structure Open (e : Exchange) : Prop where
  outcome : e.outcome = none
  closeListener : e.closeListener = true
  dataListener : e.dataListener = true

theorem open_start : start.Open := ⟨rfl, rfl, rfl⟩

theorem Open.onClose_outcome {e : Exchange} (h : e.Open) :
    e.onClose.outcome = some .rejected := by
  simp [onClose, h.closeListener, settle, cleanup, h.outcome]

theorem Open.onWrite_error {e : Exchange} (h : e.Open) :
    (e.onWrite true).outcome = some .rejected := by
  simp [onWrite, settle, cleanup, h.outcome]

theorem Open.onWrite_ok {e : Exchange} (h : e.Open) : (e.onWrite false).Open :=
  ⟨h.outcome, h.closeListener, h.dataListener⟩

end Exchange

/-- An `exchangeByte` call that has not settled: in `waitSendDelay`, or past its
`socket.write`; `accepted` says whether that handed the byte to the connection. -/
inductive Call
  | delaying (b : Byte)
  | exchanging (accepted : Bool) (e : Exchange)
  deriving DecidableEq, Repr

/-- The listener on "data"; `rx` is the first byte of the chunk.  Data that
comes before the write's callback is discarded. -/
def onData (c : GameBoyClient) (e : Exchange) (rx : Byte) : GameBoyClient × Exchange :=
  if e.dataListener then
    if e.sentByte then
      ({ c with lastReceivedByte := rx }, e.cleanup.settle (.resolved rx))
    else (c, e)
  else (c, e)

/-- The callback of `setTimeout`. -/
def onTimeout (c : GameBoyClient) (e : Exchange) : GameBoyClient × Exchange :=
  if e.timeout = .armed then (c.disconnect, { e with timeout := .fired }) else (c, e)

theorem onData_of_sent {e : Exchange} (h : e.Open) (hsent : e.sentByte = true)
    (c : GameBoyClient) (rx : Byte) :
    (onData c e rx).1 = { c with lastReceivedByte := rx } ∧
      (onData c e rx).2.outcome = some (.resolved rx) := by
  simp [onData, h.dataListener, hsent, Exchange.settle, Exchange.cleanup, h.outcome]

theorem onData_of_not_sent {e : Exchange} (hsent : e.sentByte = false)
    (c : GameBoyClient) (rx : Byte) : onData c e rx = (c, e) := by
  simp [onData, hsent]

theorem onTimeout_open {e : Exchange} (h : e.Open) (c : GameBoyClient) :
    (onTimeout c e).2.Open := by
  unfold onTimeout
  split
  · exact ⟨h.outcome, h.closeListener, h.dataListener⟩
  · exact h

end GbPlay.Server.Client
