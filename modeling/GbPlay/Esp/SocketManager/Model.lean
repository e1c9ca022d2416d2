import GbPlay.Esp.ServerPort
import GbPlay.Esp.Socket.Model
import GbPlay.Library.Ongoing

/-!
# The socket manager

`socket_manager.c`: the task that keeps a connection to the server and passes the bytes
of the server on to the Game Boy and its answers back.

The loops make at most `turns` turns, as those of the sockets do.  `rx` and `tx` are the
addresses of the two variables in `_handle_data_until_error`.
-/

namespace GbPlay.Esp.SocketManager

open GbPlay.Library GbPlay.Library.Calls GbPlay.Library.Calls.Program
open GbPlay.Esp.Socket (Fd socketConnect socketRead socketWrite)

inductive Call
  | socket (c : Socket.Call)
  | storageGetString (key : String)
  | spiExchangeByte (tx : UInt8)
  | wifiIsConnected
  | xTaskNotifyWait
  deriving DecidableEq

abbrev Answer : Call → Type
  | .socket c => Socket.Answer c
  | .storageGetString _ => Option CString × ServerPort.Errno
  | .spiExchangeByte _ => UInt8
  | .wifiIsConnected => Bool
  | .xTaskNotifyWait => Unit

/-- What the functions of `socket.c` do is done by the task. -/
def onSockets {α : Type} (p : Program Socket.Answer α) : Program Answer α :=
  embed Call.socket (fun _ r => r) p

/-- The host as `getaddrinfo` is given it, one character for each byte. -/
def hostName : ServerPort.Host → String
  | .stored host => String.ofList (host.bytes.map fun b => Char.ofNat b.toNat)
  | .default => "192.168.0.115"

/-- The calls of `_connect_to_server`. -/
def carryOut (turns : Nat) : (c : ServerPort.Call) → Program Answer (ServerPort.Answer c)
  | .storageGetString key => perform (Call.storageGetString key)
  | .socketConnect serverHost serverPort timeoutMs => do
      match ← onSockets (socketConnect turns (hostName serverHost) serverPort timeoutMs) with
      | some sock => return (sock : Int)
      | none => return (-1 : Int)

/-- `_connect_to_server` -/
def connectToServer (turns : Nat) : Program Answer Int :=
  interpret (carryOut turns) ServerPort.connectToServer

/-- A turn of the loop of `_handle_data_until_error`, on the memory. -/
def handleDataTurn (turns : Nat) (sock : Fd) (rx tx : BitVec 32) (memory : Memory 32) :
    Program Answer (Memory 32 ⊕ Memory 32) := do
  let (ok, memory) ← onSockets (socketRead turns sock rx 1 (memory.store rx [0]))
  if ok then
    let answer ← perform (Call.spiExchangeByte (memory rx))
    let memory := memory.store tx [answer]
    let ok ← onSockets (socketWrite turns sock tx 1 memory)
    if ok then return .inl memory else return .inr memory
  else return .inr memory

def handleDataUntilError (turns : Nat) (sock : Fd) (rx tx : BitVec 32) (memory : Memory 32) :
    Program Answer (Memory 32) :=
  loop (handleDataTurn turns sock rx tx) turns memory

/-- The beginning of a turn of the task: without a network it waits to be notified. -/
def awaitNetwork : Program Answer Unit := do
  let connected ← perform Call.wifiIsConnected
  if connected then return () else perform Call.xTaskNotifyWait

/-- A turn of the loop of `task_socket_manager`, on the memory. -/
def managerTurn (turns : Nat) (rx tx : BitVec 32) (memory : Memory 32) :
    Program Answer (Memory 32 ⊕ Empty) := do
  let _ ← awaitNetwork
  let sock ← connectToServer turns
  if sock < 0 then return .inl memory
  else
    let memory ← handleDataUntilError turns sock.toNat rx tx memory
    let _ ← perform (Call.socket (.close sock.toNat))
    return .inl memory

/-- `task_socket_manager`, which never returns. -/
def taskSocketManager (turns : Nat) (rx tx : BitVec 32) (memory : Memory 32) :
    Program Answer Empty :=
  loop (managerTurn turns rx tx) turns memory

end GbPlay.Esp.SocketManager
