import GbPlay.Library.Runs
import GbPlay.Tools.Bgb.Packet

/-!
# The BGB link cable server

`bgb_link_cable_server.py`: one call of `run` and, in other threads, any calls of
`stop` and `send_master_byte`.  `_connection_lock` makes a step of every test of
the running flag and of every send; the packets received and what the callbacks
and the sends do come from outside.

Nothing but the log, which records what was observed, newest first, is not in
the source.
-/

namespace GbPlay.Tools.Bgb

open GbPlay.Server.Client (Byte)

/-! ## Packet handlers -/

/-- The optional arguments of `run`. -/
inductive Callback
  | masterDataHandler
  | slaveDataHandler
  deriving DecidableEq, Repr

inductive Handler
  | version
  | joypadUpdate
  | sync1
  | sync2
  | sync3
  | status
  | wantDisconnect
  deriving DecidableEq, Repr

/-- `self._handlers` -/
def handlers (b1 : Byte) : Option Handler :=
  if b1 = 1 then some .version
  else if b1 = 101 then some .joypadUpdate
  else if b1 = 104 then some .sync1
  else if b1 = 105 then some .sync2
  else if b1 = 106 then some .sync3
  else if b1 = 108 then some .status
  else if b1 = 109 then some .wantDisconnect
  else none

/-- What a handler does before it returns. -/
inductive Handling
  | raises
  | returns
  | sends (m : Message)
  | calls (callback : Callback) (data : Byte)
  deriving DecidableEq, Repr

/-- `send_master_byte` -/
def masterByte (data : Int) : Message := { type := 104, b2 := data, b3 := 0x81 }

/-- `_send_status_packet` -/
def statusPacket : Message := { type := 108, b2 := 1 }

/-- The version packet of the handshake. -/
def versionPacket : Message := { type := 1, b2 := 1, b3 := 4, b4 := 0 }

/-- A handler, up to its callback; `given` are the callbacks that `run` was given. -/
def handle (given : Callback → Bool) : Handler → Byte → Byte → Byte → Handling
  | .version, major, minor, patch =>
      if (major, minor, patch) ≠ (1, 4, 0) then .raises else .sends statusPacket
  | .joypadUpdate, _, _, _ => .returns
  | .sync1, data, _, _ =>
      if given .masterDataHandler then .calls .masterDataHandler data
      else .sends { type := 106, b2 := 1 }
  | .sync2, data, _, _ =>
      if given .slaveDataHandler then .calls .slaveDataHandler data else .returns
  | .sync3, b2, b3, b4 => .sends { type := 106, b2 := b2.toNat, b3, b4 }
  | .status, _, _, _ => .sends statusPacket
  | .wantDisconnect, _, _, _ => .returns

/-- What a handler sends when its callback has returned; `none` is Python's. -/
def answer : Callback → Option Int → Option Message
  | .masterDataHandler, some response => some { type := 105, b2 := response, b3 := 0x80 }
  | .slaveDataHandler, some response =>
      -- only if it is true
      if response ≠ 0 then some (masterByte response) else none
  | _, none => none

/-! ## The server -/

/-- Who sends a packet. -/
inductive Sender
  | handshake
  | handler
  /-- a call of `send_master_byte` in another thread -/
  | thread
  deriving DecidableEq, Repr

inductive Action
  | received (data : List Byte)
  | unpacked (p : Packet)
  /-- A handler has been invoked. -/
  | dispatched (h : Handler) (b2 b3 b4 : Byte)
  | called (callback : Callback) (data : Byte)
  | sent (sender : Sender) (p : Packet)
  /-- `send` on the connection has raised. -/
  | sendFailed (sender : Sender) (p : Packet)
  /-- `run` has left its receive loop. -/
  | left
  deriving DecidableEq, Repr

/-- Where `run` is. -/
inductive Main
  | listening
  /-- in `_send_packet`, which has read the timestamp, before the lock -/
  | sending (sender : Sender) (m : Message) (i1 : UInt32)
  /-- at `while self.is_running()` -/
  | checking
  | receiving
  | calling (callback : Callback) (data : Byte)
  | returned
  deriving DecidableEq, Repr

/-- `threads` are the calls of `send_master_byte` that have read the timestamp. -/
structure Server where
  lastReceivedTimestamp : UInt32 := 0
  isRunning : Bool := false
  /-- `self._running`, which nothing reads -/
  running : Option Bool := none
  main : Main := .listening
  threads : List (Message × UInt32) := []
  log : List Action := []
  deriving DecidableEq, Repr

namespace Server

/-- The part of `_send_packet` that holds the lock; `ok` is whether `send` on the
connection succeeds, should it be called. -/
def sendPacket (s : Server) (sender : Sender) (m : Message) (i1 : UInt32) (ok : Bool) : Server :=
  if !s.isRunning then { s with running := some false }
  else
    match m.pack i1 with
    | none => { s with running := some false }
    | some p =>
        if ok then { s with log := .sent sender p :: s.log }
        else { s with running := some false, log := .sendFailed sender p :: s.log }

def leave (s : Server) : Server := { s with main := .returned, log := .left :: s.log }

/-- Begin to send from `run`. -/
def send (s : Server) (sender : Sender) (m : Message) : Server :=
  { s with main := .sending sender m s.lastReceivedTimestamp }

/-- The server pretends to be in sync with its client. -/
def updateTimestamp (s : Server) (timestamp : UInt32) : Server :=
  if timestamp > s.lastReceivedTimestamp then { s with lastReceivedTimestamp := timestamp } else s

/-- The body of the loop after `recv`, up to where the handler sends or calls back. -/
def dispatch (given : Callback → Bool) (s : Server) (p : Packet) : Server :=
  match handlers p.b1 with
  | none => s.leave
  | some h =>
      let s := { s with log := .dispatched h p.b2 p.b3 p.b4 :: s.log }
      match handle given h p.b2 p.b3 p.b4 with
      | .raises => s.leave
      | .returns => { s with main := .checking }
      | .sends m => s.send .handler m
      | .calls callback data =>
          { s with main := .calling callback data, log := .called callback data :: s.log }

def receive (given : Callback → Bool) (s : Server) (data : List Byte) : Server :=
  let s := { s with log := .received data :: s.log }
  if data = [] then s.leave
  else
    match unpack data with
    | none => s.leave
    | some p => dispatch given ({ s with log := .unpacked p :: s.log }.updateTimestamp p.i1) p

end Server

/-- What a callback does. -/
inductive Response
  | raises
  | returns (response : Option Int)
  deriving DecidableEq, Repr

inductive Label
  | accept
  | check
  /-- The bytes that `recv` returns, none when the connection was dropped. -/
  | recv (data : List Byte)
  | recvError
  | callback (response : Response)
  | send (ok : Bool)
  | stop
  | sendMasterByte (data : Int)
  /-- Call `i` of `send_master_byte` gets the lock. -/
  | threadSend (i : Nat) (ok : Bool)
  deriving DecidableEq, Repr

/-- The steps of the other threads. -/
def Label.isThread : Label → Bool
  | .stop | .sendMasterByte _ | .threadSend _ _ => true
  | _ => false

def step (given : Callback → Bool) (s : Server) : Label → Option Server
  | .accept =>
      match s.main with
      | .listening => some ({ s with isRunning := true }.send .handshake versionPacket)
      | _ => none
  | .check =>
      match s.main with
      | .checking => some (if s.isRunning then { s with main := .receiving } else s.leave)
      | _ => none
  | .recv data =>
      match s.main with
      | .receiving => if data.length ≤ packetSizeBytes then some (s.receive given data) else none
      | _ => none
  | .recvError =>
      match s.main with
      | .receiving => some s.leave
      | _ => none
  | .callback response =>
      match s.main, response with
      | .calling _ _, .raises => some s.leave
      | .calling callback _, .returns response =>
          match answer callback response with
          | none => some { s with main := .checking }
          | some m => some (s.send .handler m)
      | _, _ => none
  | .send ok =>
      match s.main with
      | .sending sender m i1 => some { s.sendPacket sender m i1 ok with main := .checking }
      | _ => none
  | .stop => some { s with isRunning := false }
  | .sendMasterByte data =>
      some { s with threads := s.threads ++ [(masterByte data, s.lastReceivedTimestamp)] }
  | .threadSend i ok =>
      match s.threads[i]? with
      | none => none
      | some (m, i1) =>
          -- the connection is closed when `run` has left its loop
          if ok && s.main = .returned then none
          else some { s.sendPacket .thread m i1 ok with threads := s.threads.eraseIdx i }

/-! ## What a step can do -/

inductive Move (given : Callback → Bool) (s : Server) : Label → Server → Prop
  | accept : s.main = .listening →
      Move given s .accept ({ s with isRunning := true }.send .handshake versionPacket)
  | goOn : s.main = .checking → s.isRunning = true →
      Move given s .check { s with main := .receiving }
  | stopped : s.main = .checking → s.isRunning = false → Move given s .check s.leave
  | receive {data : List Byte} : s.main = .receiving → data.length ≤ packetSizeBytes →
      Move given s (.recv data) (s.receive given data)
  | recvError : s.main = .receiving → Move given s .recvError s.leave
  | raise {callback : Callback} {data : Byte} : s.main = .calling callback data →
      Move given s (.callback .raises) s.leave
  | silence {callback : Callback} {data : Byte} {response : Option Int} :
      s.main = .calling callback data → answer callback response = none →
      Move given s (.callback (.returns response)) { s with main := .checking }
  | answer {callback : Callback} {data : Byte} {response : Option Int} {m : Message} :
      s.main = .calling callback data → answer callback response = some m →
      Move given s (.callback (.returns response)) (s.send .handler m)
  | send {sender : Sender} {m : Message} {i1 : UInt32} {ok : Bool} :
      s.main = .sending sender m i1 →
      Move given s (.send ok) { s.sendPacket sender m i1 ok with main := .checking }
  | stop : Move given s .stop { s with isRunning := false }
  | sendMasterByte {data : Int} :
      Move given s (.sendMasterByte data)
        { s with threads := s.threads ++ [(masterByte data, s.lastReceivedTimestamp)] }
  | threadSend {i : Nat} {m : Message} {i1 : UInt32} {ok : Bool} :
      s.threads[i]? = some (m, i1) →
      Move given s (.threadSend i ok)
        { s.sendPacket .thread m i1 ok with threads := s.threads.eraseIdx i }

theorem move_of_step {given : Callback → Bool} {s s' : Server} {l : Label}
    (h : step given s l = some s') : Move given s l s' := by
  cases l with
  | accept =>
      simp only [step] at h
      split at h <;> cases h
      exact .accept ‹_›
  | check =>
      simp only [step] at h
      split at h <;> cases h
      split
      · exact .goOn ‹_› ‹_›
      · rename_i hmain hrunning
        exact .stopped hmain (by simpa using hrunning)
  | recv data =>
      simp only [step] at h
      split at h
      · split at h <;> cases h
        exact .receive ‹_› ‹_›
      · cases h
  | recvError =>
      simp only [step] at h
      split at h <;> cases h
      exact .recvError ‹_›
  | callback response =>
      simp only [step] at h
      split at h
      · cases h
        exact .raise ‹_›
      · split at h <;> cases h
        · exact .silence ‹_› ‹_›
        · exact .answer ‹_› ‹_›
      · cases h
  | send ok =>
      simp only [step] at h
      split at h <;> cases h
      exact .send ‹_›
  | stop =>
      cases h
      exact .stop
  | sendMasterByte data =>
      cases h
      exact .sendMasterByte
  | threadSend i ok =>
      simp only [step] at h
      split at h
      · cases h
      · split at h <;> cases h
        exact .threadSend ‹_›

/-! ## What the parts of a step do -/

/-- Actions that are neither sends nor the end of the loop. -/
def isInput : Action → Bool
  | .sent _ _ | .sendFailed _ _ | .left => false
  | _ => true

/-- Actions of a handler before it sends. -/
def isHandling : Action → Bool
  | .dispatched _ _ _ _ | .called _ _ => true
  | _ => false

theorem isInput_of_isHandling {a : Action} (h : isHandling a = true) : isInput a = true := by
  cases a <;> first | rfl | cases h

/-- What `recv` has returned ends the loop: nothing, a part of a packet, a packet of an
unknown type or one that its handler rejects. -/
def endsLoopOn (given : Callback → Bool) (data : List Byte) : Bool :=
  match unpack data with
  | none => true
  | some p =>
      match handlers p.b1 with
      | none => true
      | some h => handle given h p.b2 p.b3 p.b4 = .raises

namespace Server

variable {given : Callback → Bool} {s : Server} {sender : Sender} {m : Message} {i1 : UInt32}
  {ok : Bool} {p : Packet} {data : List Byte}

/-- A whole packet has been received. -/
def unpacked (s : Server) (data : List Byte) (p : Packet) : Server :=
  { s with log := .unpacked p :: .received data :: s.log }.updateTimestamp p.i1

theorem updateTimestamp_eq (s : Server) (timestamp : UInt32) :
    s.updateTimestamp timestamp = { s with
      lastReceivedTimestamp :=
        if timestamp > s.lastReceivedTimestamp then timestamp else s.lastReceivedTimestamp } := by
  unfold updateTimestamp
  split <;> rfl

theorem log_unpacked (s : Server) (data : List Byte) (p : Packet) :
    (s.unpacked data p).log = [.unpacked p, .received data] ++ s.log := by
  simp [unpacked, updateTimestamp_eq]

@[simp] theorem main_unpacked (s : Server) (data : List Byte) (p : Packet) :
    (s.unpacked data p).main = s.main := by
  simp [unpacked, updateTimestamp_eq]

@[simp] theorem isRunning_unpacked (s : Server) (data : List Byte) (p : Packet) :
    (s.unpacked data p).isRunning = s.isRunning := by
  simp [unpacked, updateTimestamp_eq]

theorem receive_of_unpack (h : unpack data = some p) :
    s.receive given data = dispatch given (s.unpacked data p) p := by
  have hdata : data ≠ [] := by
    rintro rfl
    cases h
  simp only [receive, if_neg hdata, h]
  rfl

theorem receive_of_not_unpack (h : unpack data = none) :
    s.receive given data = leave { s with log := .received data :: s.log } := by
  simp only [receive, h]
  split <;> rfl

/-- A packet that is dispatched ends the loop, or `run` goes on where its handler
sends, calls back or returns. -/
theorem dispatch_cases (given : Callback → Bool) (s : Server) (hunpack : unpack data = some p) :
    ∃ actions, (∀ a ∈ actions, isHandling a = true) ∧
      ((endsLoopOn given data = true ∧
          dispatch given s p = leave { s with log := actions ++ s.log }) ∨
        (endsLoopOn given data = false ∧ ∃ main,
          dispatch given s p = { s with main := main, log := actions ++ s.log } ∧
          (main = .checking ∨ (∃ m, main = .sending .handler m s.lastReceivedTimestamp) ∨
            ∃ callback byte, main = .calling callback byte))) := by
  simp only [dispatch, endsLoopOn, hunpack]
  cases handlers p.b1 with
  | none => exact ⟨[], by simp, .inl ⟨rfl, rfl⟩⟩
  | some h =>
      dsimp only
      cases handle given h p.b2 p.b3 p.b4 with
      | raises =>
          exact ⟨[.dispatched h p.b2 p.b3 p.b4], by simp [isHandling], .inl ⟨by simp, rfl⟩⟩
      | returns =>
          exact ⟨[.dispatched h p.b2 p.b3 p.b4], by simp [isHandling],
            .inr ⟨by simp, .checking, rfl, .inl rfl⟩⟩
      | sends m =>
          exact ⟨[.dispatched h p.b2 p.b3 p.b4], by simp [isHandling],
            .inr ⟨by simp, _, rfl, .inr (.inl ⟨m, rfl⟩)⟩⟩
      | calls callback byte =>
          exact ⟨[.called callback byte, .dispatched h p.b2 p.b3 p.b4], by simp [isHandling],
            .inr ⟨by simp, _, rfl, .inr (.inr ⟨callback, byte, rfl⟩)⟩⟩

theorem endsLoopOn_of_not_unpack (h : unpack data = none) : endsLoopOn given data = true := by
  simp [endsLoopOn, h]

@[simp] theorem sendPacket_isRunning :
    (s.sendPacket sender m i1 ok).isRunning = s.isRunning := by
  unfold sendPacket
  split
  · rfl
  · cases m.pack i1 <;> cases ok <;> rfl

@[simp] theorem sendPacket_lastReceivedTimestamp :
    (s.sendPacket sender m i1 ok).lastReceivedTimestamp = s.lastReceivedTimestamp := by
  unfold sendPacket
  split
  · rfl
  · cases m.pack i1 <;> cases ok <;> rfl

@[simp] theorem sendPacket_main : (s.sendPacket sender m i1 ok).main = s.main := by
  unfold sendPacket
  split
  · rfl
  · cases m.pack i1 <;> cases ok <;> rfl

/-- The call gets as far as `send` on the connection. -/
def reachesConnection (s : Server) (m : Message) (i1 : UInt32) : Bool :=
  s.isRunning && (m.pack i1).isSome

theorem sendPacket_log_of_not_reaches (sender : Sender) (ok : Bool)
    (h : s.reachesConnection m i1 = false) :
    (s.sendPacket sender m i1 ok).log = s.log := by
  unfold sendPacket
  split
  · rfl
  · rename_i hrunning
    cases hpack : m.pack i1 with
    | none => rfl
    | some p => simp_all [reachesConnection]

theorem sendPacket_log_of_reaches (sender : Sender) (ok : Bool)
    (h : s.reachesConnection m i1 = true) :
    ∃ p, m.pack i1 = some p ∧ (s.sendPacket sender m i1 ok).log =
      (if ok then .sent sender p else .sendFailed sender p) :: s.log := by
  rw [reachesConnection, Bool.and_eq_true] at h
  obtain ⟨p, hp⟩ := Option.isSome_iff_exists.mp h.2
  refine ⟨p, hp, ?_⟩
  simp only [sendPacket, h.1, hp]
  cases ok <;> rfl

end Server

end GbPlay.Tools.Bgb
