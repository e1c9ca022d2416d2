import Mathlib.Algebra.Group.Int.Defs
import GbPlay.Library.Calls
import GbPlay.Library.Memory

/-!
# Sockets

`socket.c`, as programs that call the operating system.  A call that can fail
answers with its value or with the `errno` it sets.

Each of the loops over interruptions makes at most `turns` turns; one that has
not ended by then does not return.
-/

namespace GbPlay.Esp.Socket

open GbPlay.Library GbPlay.Library.Calls GbPlay.Library.Calls.Program

/-- A value of `errno` after a failure, which is never 0. -/
inductive Errno
  | einprogress
  | eintr
  | etimedout
  | other (code : Nat)
  deriving DecidableEq, Repr

abbrev Fd := Nat

abbrev Flags := BitVec 32

def oNonblock : Flags := 0x4000

/-- A `struct addrinfo`; `aiAddr` are the `ai_addrlen` bytes of the address. -/
structure Address where
  aiFamily : Int
  aiSocktype : Int
  aiProtocol : Int
  aiAddr : List UInt8
  deriving DecidableEq, Repr

def afInet : Int := 2

def sockStream : Int := 1

def ipprotoTcp : Int := 6

/-- `SSIZE_MAX` -/
def ssizeMax : Nat := 2 ^ 31 - 1

inductive Call
  | getaddrinfo (address : String) (port : UInt16) (family socktype protocol : Int)
  | freeaddrinfo
  | socket (family socktype protocol : Int)
  | setNodelay (sock : Fd)
  | getFlags (sock : Fd)
  | setFlags (sock : Fd) (flags : Flags)
  | connect (sock : Fd) (address : List UInt8)
  | getTime
  | poll (sock : Fd) (timeoutMs : Int)
  | getSocketError (sock : Fd)
  | close (sock : Fd)
  | recv (sock : Fd) (len : BitVec 32)
  | send (sock : Fd) (bytes : List UInt8)
  deriving DecidableEq, Repr

/-- What `poll` answers, and the time at which it does, which the program is not told. -/
structure Polled where
  rc : Except Errno Nat
  time : Int

/-- The bytes that `recv` stores, at most as many as there is room for. -/
abbrev Received (len : BitVec 32) := { bs : List UInt8 // bs.length ≤ min len.toNat ssizeMax }

/-- The number of bytes that `send` takes over, at most as many as it is given. -/
abbrev Sent (bytes : List UInt8) := { n : Nat // n ≤ min bytes.length ssizeMax }

/-- `SO_ERROR` is 0 or an error. -/
abbrev Answer : Call → Type
  | .getaddrinfo .. => Option (List Address)
  | .socket .. => Except Errno Fd
  | .getFlags _ => Except Errno Flags
  | .setNodelay _ | .setFlags _ _ | .connect _ _ => Except Errno Unit
  | .getTime => Int
  | .poll _ _ => Polled
  | .getSocketError _ => Except Errno (Option Errno)
  | .freeaddrinfo | .close _ => Unit
  | .recv _ len => Except Errno (Received len)
  | .send _ bytes => Except Errno (Sent bytes)

/-! ## Connecting -/

/-- `_set_socket_is_blocking` -/
def setSocketIsBlocking (sock : Fd) (isBlocking : Bool) : Program Answer Bool := do
  match ← perform (Call.getFlags sock) with
  | .error _ => return false
  | .ok flags =>
      let newFlags := if isBlocking then flags &&& ~~~oNonblock else flags ||| oNonblock
      match ← perform (Call.setFlags sock newFlags) with
      | .error _ => return false
      | .ok _ => return true

/-- `_get_socket_error` -/
def getSocketError (sock : Fd) : Program Answer (Option Errno) := do
  match ← perform (Call.getSocketError sock) with
  | .error errno => return some errno
  | .ok sockError => return sockError

/-- The value that an `int` takes from a wider integer. -/
def toInt32 (n : Int) : Int := n.bmod (2 ^ 32)

/-- `ms_to_wait` -/
def msToWait (cutoffTime now : Int) : Int := toInt32 ((cutoffTime - now).tdiv 1000)

/-- A turn of the loop of `_wait_for_socket_connect`. -/
def waitTurn (sock : Fd) (timeoutMs cutoffTime : Int) : Program Answer (Unit ⊕ Bool) := do
  let now ← perform Call.getTime
  if msToWait cutoffTime now ≤ 0 then return .inr false
  else
    let polled ← perform (Call.poll sock timeoutMs)
    match polled.rc with
    | .ok 0 => return .inr false
    | .error .eintr => return .inl ()
    | .error _ => return .inr false
    | .ok (_ + 1) =>
        match ← getSocketError sock with
        | none => return .inr true
        | some _ => return .inr false

/-- `_wait_for_socket_connect` -/
def waitForSocketConnect (turns : Nat) (sock : Fd) (timeoutMs : Int) : Program Answer Bool := do
  let now ← perform Call.getTime
  loop (fun _ => waitTurn sock timeoutMs (now + toInt32 (timeoutMs * 1000))) turns ()

/-- `connect`, and the wait for it when it does not succeed at once. -/
def startConnect (turns : Nat) (sock : Fd) (address : Address) (timeoutMs : Int) :
    Program Answer Bool := do
  match ← perform (Call.connect sock address.aiAddr) with
  | .ok _ => return true
  | .error .einprogress => waitForSocketConnect turns sock timeoutMs
  | .error _ => return false

/-- `_connect_socket` -/
def connectSocket (turns : Nat) (sock : Fd) (address : Address) (timeoutMs : Int) :
    Program Answer Bool := do
  let switched ← setSocketIsBlocking sock false
  if switched then
    let success ← startConnect turns sock address timeoutMs
    let restored ← setSocketIsBlocking sock true
    return success && restored
  else return false

/-- `close(sock); return -1;` -/
def closeSocket (sock : Fd) : Program Answer (Option Fd) := do
  let _ ← perform (Call.close sock)
  return none

/-- `_create_socket`; `none` for -1. -/
def createSocket (turns : Nat) (address : Address) (timeoutMs : Int) :
    Program Answer (Option Fd) :=
  if address.aiProtocol = ipprotoTcp then do
    match ← perform (Call.socket address.aiFamily address.aiSocktype address.aiProtocol) with
    | .error _ => return none
    | .ok sock =>
        match ← perform (Call.setNodelay sock) with
        | .error _ => closeSocket sock
        | .ok _ =>
            let connected ← connectSocket turns sock address timeoutMs
            if connected then return some sock
            else closeSocket sock
  else .stuck

/-- The loop of `socket_connect`. -/
def connectFirst (turns : Nat) (timeoutMs : Int) : List Address → Program Answer (Option Fd)
  | [] => return none
  | a :: rest => do
      match ← createSocket turns a timeoutMs with
      | some sock => return some sock
      | none => connectFirst turns timeoutMs rest

def socketConnect (turns : Nat) (address : String) (port : UInt16) (timeoutMs : Int) :
    Program Answer (Option Fd) := do
  match ← perform (Call.getaddrinfo address port afInet sockStream ipprotoTcp) with
  | none => return none
  | some addressInfo =>
      let sock ← connectFirst turns timeoutMs addressInfo
      let _ ← perform Call.freeaddrinfo
      return sock

/-! ## Transferring -/

/-- A turn of the loop of `socket_read`, on `bytes_read` and the memory. -/
def readTurn (sock : Fd) (outBuf bufLen : BitVec 32) (s : BitVec 32 × Memory 32) :
    Program Answer ((BitVec 32 × Memory 32) ⊕ (Bool × Memory 32)) := do
  let (bytesRead, memory) := s
  if bytesRead < bufLen then
    match ← perform (Call.recv sock (bufLen - bytesRead)) with
    | .error .eintr => return .inl (bytesRead, memory)
    | .error _ => return .inr (false, memory)
    | .ok bs =>
        if bs.val = [] then return .inr (false, memory)
        else
          return .inl (bytesRead + BitVec.ofNat 32 bs.val.length,
            memory.store (outBuf + bytesRead) bs.val)
  else return .inr (true, memory)

def socketRead (turns : Nat) (sock : Fd) (outBuf bufLen : BitVec 32) (memory : Memory 32) :
    Program Answer (Bool × Memory 32) :=
  loop (readTurn sock outBuf bufLen) turns (0, memory)

/-- A turn of the loop of `socket_write`, on `bytes_written`. -/
def writeTurn (sock : Fd) (buf bufLen : BitVec 32) (memory : Memory 32)
    (bytesWritten : BitVec 32) : Program Answer (BitVec 32 ⊕ Bool) := do
  if bytesWritten < bufLen then
    match ← perform
        (Call.send sock (memory.load (buf + bytesWritten) (bufLen - bytesWritten).toNat)) with
    | .error .eintr => return .inl bytesWritten
    | .error _ => return .inr false
    | .ok n =>
        if n.val = 0 then return .inr false
        else return .inl (bytesWritten + BitVec.ofNat 32 n.val)
  else return .inr true

def socketWrite (turns : Nat) (sock : Fd) (buf bufLen : BitVec 32) (memory : Memory 32) :
    Program Answer Bool :=
  loop (writeTurn sock buf bufLen memory) turns 0

end GbPlay.Esp.Socket
