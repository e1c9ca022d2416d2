import Mathlib.Algebra.Group.Int.Defs
import GbPlay.Library.Calls
import GbPlay.Library.Strtol

/-!
# The configured server

`_connect_to_server` of `socket_manager.c`: which host and port it connects to.
`errno` is a variable of the whole program, which `strtol` sets only when a
number is out of range and which nobody clears.
-/

namespace GbPlay.Esp.ServerPort

open GbPlay.Library GbPlay.Library.Calls GbPlay.Library.Calls.Program GbPlay.Library.Strtol

abbrev Errno := Int

def erange : Errno := 34

/-- A `long` has 32 bits. -/
def longMin : Int := -2 ^ 31

def longMax : Int := 2 ^ 31 - 1

def uint16Max : Int := 65535

def defaultServerPort : UInt16 := 1989

def connectionTimeoutMs : Int := 10000

/-- The strings of the storage, and the host that is a constant of the program. -/
inductive Host
  | stored (host : CString)
  | default
  deriving DecidableEq

inductive Call
  | storageGetString (key : String)
  | socketConnect (serverHost : Host) (serverPort : UInt16) (timeoutMs : Int)
  deriving DecidableEq

/-- A string of the storage, if there is one, and the value `errno` has afterwards;
a socket or -1. -/
abbrev Answer : Call → Type
  | .storageGetString _ => Option CString × Errno
  | .socketConnect _ _ _ => Int

/-- The port that is configured by a string, `errno` being what it is. -/
def serverPort (serverPortStr : Option CString) (errno : Errno) : UInt16 :=
  match serverPortStr with
  | none => defaultServerPort
  | some str =>
      let (ret, errno) := strtol longMin longMax erange str errno
      if ret = 0 ∨ errno = erange ∨ ret > uint16Max then defaultServerPort
      else .ofBitVec (BitVec.ofInt 16 ret)

/-- `_connect_to_server` -/
def connectToServer : Program Answer Int := do
  let (serverHost, _) ← perform (Call.storageGetString "server_host")
  let host := match serverHost with
    | some host => Host.stored host
    | none => Host.default
  let (serverPortStr, errno) ← perform (Call.storageGetString "server_port")
  perform (Call.socketConnect host (serverPort serverPortStr errno) connectionTimeoutMs)

/-- The number in the string when it is a port, and the default port in any other case. -/
def configuredPort (serverPortStr : Option CString) : Int :=
  match serverPortStr.bind readNumber with
  | some n => if 1 ≤ n ∧ n ≤ uint16Max then n else 1989
  | none => 1989

/-- No error is left over when a port other than the default is read, and what is read is
not a negative number that would be taken for another port. -/
def ReadCleanly (serverPortStr : Option CString) (errno : Errno) : Prop :=
  ∀ n, serverPortStr.bind readNumber = some n →
    (1 ≤ n ∧ n ≤ uint16Max ∧ n ≠ 1989 → errno ≠ erange) ∧
    (longMin ≤ n ∧ n < 0 → errno = erange ∨ n % 2 ^ 16 = 1989)

variable {str : CString} {errno : Errno} {n : Int}

theorem serverPort_none (h : readNumber str = none) :
    serverPort (some str) errno = defaultServerPort := by
  rw [serverPort, strtol_none h]
  rfl

theorem serverPort_of_outOfRange (h : readNumber str = some n)
    (hout : n < longMin ∨ longMax < n) : serverPort (some str) errno = defaultServerPort := by
  have herange : (strtol longMin longMax erange str errno).2 = erange := strtol_of_outOfRange h hout
  rw [serverPort]
  dsimp only
  rw [if_pos (Or.inr (Or.inl herange))]

theorem serverPort_of_inRange (h : readNumber str = some n) (hmin : longMin ≤ n)
    (hmax : n ≤ longMax) :
    serverPort (some str) errno =
      if n = 0 ∨ errno = erange ∨ n > uint16Max then defaultServerPort
      else .ofBitVec (BitVec.ofInt 16 n) := by
  rw [serverPort, strtol_of_inRange h hmin hmax]

theorem configuredPort_eq (h : readNumber str = some n) :
    configuredPort (some str) = if 1 ≤ n ∧ n ≤ uint16Max then n else 1989 := by
  rw [configuredPort, Option.bind_some, h]

theorem readCleanly_iff (h : readNumber str = some n) :
    ReadCleanly (some str) errno ↔
      (1 ≤ n ∧ n ≤ uint16Max ∧ n ≠ 1989 → errno ≠ erange) ∧
      (longMin ≤ n ∧ n < 0 → errno = erange ∨ n % 2 ^ 16 = 1989) := by
  rw [ReadCleanly, Option.bind_some, h]
  simp

/-- The conversion to `uint16_t` keeps the low 16 bits. -/
theorem toNat_ofInt (n : Int) :
    ((UInt16.ofBitVec (BitVec.ofInt 16 n)).toNat : Int) = n % 2 ^ 16 := by
  rw [UInt16.toNat_ofBitVec, BitVec.toNat_ofInt]
  omega

theorem serverPort_iff_of_inRange (h : readNumber str = some n) (hmin : longMin ≤ n)
    (hmax : n ≤ longMax) :
    ((serverPort (some str) errno).toNat : Int) = configuredPort (some str) ↔
      ReadCleanly (some str) errno := by
  have hdefault : (defaultServerPort.toNat : Int) = 1989 := rfl
  have hport := toNat_ofInt n
  rw [serverPort_of_inRange h hmin hmax, configuredPort_eq h, readCleanly_iff h]
  unfold uint16Max at *
  by_cases hleft : errno = erange
  · rw [if_pos (Or.inr (Or.inl hleft)), hdefault]
    simp only [hleft, ne_eq, not_true_eq_false, true_or, implies_true, and_true, imp_false]
    split <;> constructor <;> intro <;> omega
  · simp only [hleft, ne_eq, not_false_eq_true, false_or, implies_true, true_and]
    by_cases hrejected : n = 0 ∨ n > 65535
    · rw [if_pos hrejected, hdefault]
      split <;> constructor <;> intro <;> omega
    · rw [if_neg hrejected, hport]
      split <;> constructor <;> intro <;> omega

/-- The port is the configured one if and only if the string is read cleanly. -/
theorem serverPort_iff (serverPortStr : Option CString) (errno : Errno) :
    ((serverPort serverPortStr errno).toNat : Int) = configuredPort serverPortStr ↔
      ReadCleanly serverPortStr errno := by
  rcases serverPortStr with _ | str
  · exact iff_of_true rfl (by simp [ReadCleanly])
  · cases hread : readNumber str with
    | none =>
        rw [serverPort_none hread]
        refine iff_of_true ?_ ?_
        · rw [configuredPort, Option.bind_some, hread]
          rfl
        · simp [ReadCleanly, hread]
    | some n =>
        by_cases hin : longMin ≤ n ∧ n ≤ longMax
        · exact serverPort_iff_of_inRange hread hin.1 hin.2
        · have hout : n < longMin ∨ longMax < n := by omega
          rw [serverPort_of_outOfRange hread hout, configuredPort_eq hread, readCleanly_iff hread]
          unfold longMin longMax uint16Max at *
          refine iff_of_true ?_ ⟨by omega, by omega⟩
          rw [if_neg (by omega)]
          rfl

/-- The calls of `_connect_to_server`. -/
theorem connectToServer_trace {t : Trace Answer} {sock : Int}
    (h : connectToServer.Returns t sock) :
    ∃ serverHost serverPortStr errno host, t =
      [⟨.storageGetString "server_host", serverHost⟩,
        ⟨.storageGetString "server_port", (serverPortStr, errno)⟩,
        ⟨.socketConnect host (serverPort serverPortStr errno) connectionTimeoutMs, sock⟩] := by
  obtain ⟨serverHost, t, rfl, hhost⟩ := returns_call_iff.mp h
  obtain ⟨⟨serverPortStr, errno⟩, t, rfl, hport⟩ := returns_call_iff.mp hhost
  obtain ⟨sock', t, rfl, hdone⟩ := returns_call_iff.mp hport
  obtain ⟨rfl, rfl⟩ := returns_done_iff.mp hdone
  exact ⟨serverHost, serverPortStr, errno, _, rfl⟩

/-- `_connect_to_server` connects to the configured port if and only if the string is read
cleanly. -/
theorem connectToServer_iff {t : Trace Answer} {sock sock' timeoutMs : Int}
    {serverPortStr : Option CString} {errno : Errno} {host : Host} {port : UInt16}
    (h : connectToServer.Returns t sock)
    (hstr : ⟨.storageGetString "server_port", (serverPortStr, errno)⟩ ∈ t)
    (hport : ⟨.socketConnect host port timeoutMs, sock'⟩ ∈ t) :
    (port.toNat : Int) = configuredPort serverPortStr ↔ ReadCleanly serverPortStr errno := by
  obtain ⟨serverHost, str, left, host', rfl⟩ := connectToServer_trace h
  have hread : (serverPortStr, errno) = (str, left) := by
    simpa using hstr
  have hsame : (host = host' ∧ port = serverPort str left ∧ timeoutMs = connectionTimeoutMs) ∧
      sock' = sock := by
    simpa using hport
  obtain ⟨rfl, rfl⟩ := Prod.mk.inj hread
  rw [hsame.1.2.1]
  exact serverPort_iff serverPortStr errno

/-- The calls when the server is the default host. -/
def connecting (serverPortStr : CString) (errno : Errno) (port : UInt16) : Trace Answer :=
  [⟨.storageGetString "server_host", (none, errno)⟩,
    ⟨.storageGetString "server_port", (some serverPortStr, errno)⟩,
    ⟨.socketConnect .default port connectionTimeoutMs, (3 : Int)⟩]

/-- "1234" and "-1" -/
def port1234 : CString := ⟨[0x31, 0x32, 0x33, 0x34], by simp⟩

def minus1 : CString := ⟨[0x2D, 0x31], by simp⟩

theorem connectToServer_iff_1234 :
    connectToServer.Returns (connecting port1234 0 1234) 3 ∧
      (((1234 : UInt16).toNat : Int) = configuredPort (some port1234) ↔
        ReadCleanly (some port1234) 0) := by
  have hreturns : connectToServer.Returns (connecting port1234 0 1234) 3 :=
    returns_of_replay rfl
  have hstr : ⟨.storageGetString "server_port", (some port1234, 0)⟩ ∈ connecting port1234 0 1234 :=
    List.mem_cons_of_mem _ List.mem_cons_self
  have hport : ⟨.socketConnect .default 1234 connectionTimeoutMs, (3 : Int)⟩ ∈
      connecting port1234 0 1234 :=
    List.mem_cons_of_mem _ (List.mem_cons_of_mem _ List.mem_cons_self)
  exact ⟨hreturns, connectToServer_iff hreturns hstr hport⟩

/-- -1 is taken for port 65535, and port 1234 is rejected because of an error left over. -/
theorem port_wrapped_and_rejected :
    (connectToServer.Returns (connecting minus1 0 65535) 3 ∧
      ((65535 : UInt16).toNat : Int) ≠ configuredPort (some minus1)) ∧
    connectToServer.Returns (connecting port1234 erange 1989) 3 ∧
      ((1989 : UInt16).toNat : Int) ≠ configuredPort (some port1234) :=
  ⟨⟨returns_of_replay rfl, by decide⟩, returns_of_replay rfl, by decide⟩

end GbPlay.Esp.ServerPort
