import GbPlay.Library.Histories
import GbPlay.Library.Sessions
import GbPlay.Tools.Bgb.Server
import GbPlay.Tools.SerialLink

/-!
# An emulator linked to a Game Boy

`bgb_serial_link.py`: a `BGBLinkCableServer` whose master data handler sends the byte
over the serial link and returns the answer.  The server, its other threads, the serial
link and the adapter take their steps in any order.
-/

namespace GbPlay.Tools.BgbSerialLink

open GbPlay.Arduino GbPlay.Library.Histories GbPlay.Library.Relays GbPlay.Library.Runs
  GbPlay.Library.Sessions GbPlay.Server.Client GbPlay.Tools.Bgb GbPlay.Tools.SerialLink

/-- `asked`: `data_handler` has called `serial_link.send`. -/
structure State (γ : Type*) where
  server : Server := {}
  asked : Bool := false
  link : Link γ

inductive Label
  | server (l : Bgb.Label)
  /-- `data_handler` calls `serial_link.send`. -/
  | ask
  | link (l : LinkLabel)
  /-- The call returns, and so does the handler. -/
  | answer
  deriving DecidableEq, Repr

/-- `run(data_handler)` -/
def given : Callback → Bool
  | .masterDataHandler => true
  | .slaveDataHandler => false

variable {γ : Type*}

def step (game : Game γ) (s : State γ) : Label → Option (State γ)
  | .server (.callback (.returns _)) => none
  | .server l => (Bgb.step given s.server l).map fun server => { s with server }
  | .ask =>
      match s.server.main, s.asked with
      | .calling _ data, false =>
          some { s with asked := true, link := (serialLink game).ask s.link data }
      | _, _ => none
  | .link l => ((serialLink game).step s.link l).map fun link => { s with link }
  | .answer =>
      match s.server.main, s.asked, (serialLink game).answer s.link with
      | .calling _ _, true, some (response, link) =>
          (Bgb.step given s.server (.callback (.returns (some response.toNat)))).map fun server =>
            { server, asked := false, link }
      | _, _, _ => none

/-! ## What is to hold of the log -/

/-- The data of a sync1 packet that is handled. -/
def masterData : Action → Option Byte
  | .dispatched .sync1 data _ _ => some data
  | _ => none

/-- What the emulator has sent, in order. -/
def masterBytes (log : List Action) : List Byte := (log.filterMap masterData).reverse

def isMasterData (a : Action) : Bool := (masterData a).isSome

/-- A slave data packet is sent, or is to be sent when the connection fails. -/
def slaveData : Action → Option Byte
  | .sent _ p => if p.b1 = 105 then some p.b2 else none
  | .sendFailed _ p => if p.b1 = 105 then some p.b2 else none
  | _ => none

def isSlaveData (a : Action) : Bool := (slaveData a).isSome

/-- Nothing that passes between the emulator and the Game Boy. -/
def Quiet (a : Action) : Prop := masterData a = none ∧ slaveData a = none

variable {game : Game γ} {g₀ : γ} {s s' : State γ} {log actions : List Action} {a : Action}
  {data b : Byte} {bytes : List Byte} {m : Message} {i1 : UInt32}

/-- The Game Boy has answered `b` to the last byte, and that has not been sent back. -/
structure Unsent (game : Game γ) (g₀ : γ) (log : List Action) (b : Byte) : Prop where
  last : (answers game.device g₀ (masterBytes log)).getLast? = some b
  since : HappenedSince isSlaveData isMasterData log

/-- A slave data packet carries the answer to the byte of the last sync1 packet, and is the only
one that does. -/
def Answers (game : Game γ) (g₀ : γ) (a : Action) (past : List Action) : Prop :=
  ∀ b, slaveData a = some b → Unsent game g₀ past b

theorem Quiet.answers (h : Quiet a) (past : List Action) : Answers game g₀ a past := by
  intro b hb
  rw [h.2] at hb
  cases hb

theorem always_quiet (h : ∀ a ∈ actions, Quiet a) (hlog : Always (Answers game g₀) log) :
    Always (Answers game g₀) (actions ++ log) :=
  hlog.append fun a ha past => (h a ha).answers past

theorem masterBytes_quiet (h : ∀ a ∈ actions, Quiet a) :
    masterBytes (actions ++ log) = masterBytes log := by
  have hnone : actions.filterMap masterData = [] := by
    rw [List.filterMap_eq_nil_iff]
    exact fun a ha => (h a ha).1
  rw [masterBytes, List.filterMap_append, hnone, List.nil_append, masterBytes]

theorem happenedSince_quiet (h : ∀ a ∈ actions, Quiet a)
    (hlog : HappenedSince isSlaveData isMasterData log) :
    HappenedSince isSlaveData isMasterData (actions ++ log) := by
  induction actions with
  | nil => exact hlog
  | cons a actions ih =>
      have hquiet : isSlaveData a = false := by
        rw [isSlaveData, (h a List.mem_cons_self).2]
        rfl
      exact .cons hquiet (ih fun b hb => h b (List.mem_cons_of_mem a hb))

theorem Unsent.quiet (hlog : Unsent game g₀ log b) (h : ∀ a ∈ actions, Quiet a) :
    Unsent game g₀ (actions ++ log) b := by
  refine ⟨?_, happenedSince_quiet h hlog.since⟩
  rw [masterBytes_quiet h]
  exact hlog.last

/-! ## The invariant -/

/-- The handler has been called with the last of the bytes. -/
inductive Calling (game : Game γ) (g₀ : γ) (bytes : List Byte) (data : Byte) :
    Bool → Link γ → Prop
  | called {link : Link γ} {done : List Byte} : bytes = done ++ [data] →
      LinkPhase game link (.idle (after game.device g₀ done)) →
      Calling game g₀ bytes data false link
  | asked {link : Link γ} {done : List Byte} : bytes = done ++ [data] →
      LinkPhase game link (.asked (after game.device g₀ done) data) →
      Calling game g₀ bytes data true link
  | answered {link : Link γ} {done : List Byte} : bytes = done ++ [data] →
      LinkPhase game link (.answered (game.device (after game.device g₀ done) data).1
        (game.device (after game.device g₀ done) data).2) → Calling game g₀ bytes data true link

/-- The Game Boy has answered all the bytes. -/
structure Quiescent (game : Game γ) (g₀ : γ) (bytes : List Byte) (asked : Bool) (link : Link γ) :
    Prop where
  asked : asked = false
  link : LinkPhase game link (.idle (after game.device g₀ bytes))

theorem Quiescent.quiet {asked : Bool} {link : Link γ}
    (h : Quiescent game g₀ (masterBytes log) asked link) (hactions : ∀ a ∈ actions, Quiet a) :
    Quiescent game g₀ (masterBytes (actions ++ log)) asked link := by
  rwa [masterBytes_quiet hactions]

theorem Calling.quiet {asked : Bool} {link : Link γ}
    (h : Calling game g₀ (masterBytes log) data asked link) (hactions : ∀ a ∈ actions, Quiet a) :
    Calling game g₀ (masterBytes (actions ++ log)) data asked link := by
  rwa [masterBytes_quiet hactions]

def answerMessage (b : Byte) : Message := { type := 105, b2 := b.toNat, b3 := 0x80 }

/-- How far the bytes of the log have come while `run` is at `main`. -/
inductive Stage (game : Game γ) (g₀ : γ) (log : List Action) (asked : Bool) (link : Link γ) :
    Main → Prop
  | calling {data : Byte} : HappenedSince isSlaveData isMasterData log →
      Calling game g₀ (masterBytes log) data asked link →
      Stage game g₀ log asked link (.calling .masterDataHandler data)
  | answering {sender : Sender} {b : Byte} {i1 : UInt32} : Unsent game g₀ log b →
      Quiescent game g₀ (masterBytes log) asked link →
      Stage game g₀ log asked link (.sending sender (answerMessage b) i1)
  | sending {sender : Sender} {m : Message} {i1 : UInt32} : m.type ≠ 105 →
      Quiescent game g₀ (masterBytes log) asked link →
      Stage game g₀ log asked link (.sending sender m i1)
  | listening : Quiescent game g₀ (masterBytes log) asked link →
      Stage game g₀ log asked link .listening
  | checking : Quiescent game g₀ (masterBytes log) asked link →
      Stage game g₀ log asked link .checking
  | receiving : Quiescent game g₀ (masterBytes log) asked link →
      Stage game g₀ log asked link .receiving
  | returned : Quiescent game g₀ (masterBytes log) asked link →
      Stage game g₀ log asked link .returned
  | raised {data : Byte} : Calling game g₀ (masterBytes log) data asked link →
      Stage game g₀ log asked link .returned

structure Inv (game : Game γ) (g₀ : γ) (s : State γ) : Prop where
  log : Always (Answers game g₀) s.server.log
  stage : Stage game g₀ s.server.log s.asked s.link s.server.main
  threads : ∀ x ∈ s.server.threads, x.1.type ≠ 105

theorem Stage.quiet {asked : Bool} {link : Link γ} {main : Main}
    (h : Stage game g₀ log asked link main) (hactions : ∀ a ∈ actions, Quiet a) :
    Stage game g₀ (actions ++ log) asked link main := by
  cases h with
  | calling hsince hcalling =>
      exact .calling (happenedSince_quiet hactions hsince) (hcalling.quiet hactions)
  | answering hunsent hlink => exact .answering (hunsent.quiet hactions) (hlink.quiet hactions)
  | sending hm hlink => exact .sending hm (hlink.quiet hactions)
  | listening hlink => exact .listening (hlink.quiet hactions)
  | checking hlink => exact .checking (hlink.quiet hactions)
  | receiving hlink => exact .receiving (hlink.quiet hactions)
  | returned hlink => exact .returned (hlink.quiet hactions)
  | raised hcalling => exact .raised (hcalling.quiet hactions)

/-! ## The steps of the server -/

/-- What becomes of a packet: a sync1 packet calls the handler, and no other does. -/
inductive Dispatched (server : Server) (p : Packet) : Server → Prop
  | calls : Dispatched server p { server with
      main := .calling .masterDataHandler p.b2
      log := .called .masterDataHandler p.b2 :: .dispatched .sync1 p.b2 p.b3 p.b4 :: server.log }
  | sends {m : Message} {actions : List Action} : m.type ≠ 105 → (∀ a ∈ actions, Quiet a) →
      Dispatched server p { server with
        main := .sending .handler m server.lastReceivedTimestamp, log := actions ++ server.log }
  | returns {actions : List Action} : (∀ a ∈ actions, Quiet a) →
      Dispatched server p { server with main := .checking, log := actions ++ server.log }
  | leaves {actions : List Action} : (∀ a ∈ actions, Quiet a) →
      Dispatched server p { server with main := .returned, log := actions ++ server.log }

theorem quiet_left : ∀ a ∈ [Action.left], Quiet a := by simp [Quiet, masterData, slaveData]

theorem quiet_left_version (p : Packet) :
    ∀ a ∈ [Action.left, .dispatched .version p.b2 p.b3 p.b4], Quiet a := by
  simp [Quiet, masterData, slaveData]

theorem dispatched (server : Server) (p : Packet) :
    Dispatched server p (Server.dispatch given server p) := by
  cases hhandler : handlers p.b1 with
  | none =>
      simp only [Server.dispatch, hhandler]
      exact Dispatched.leaves quiet_left
  | some h =>
      have hquiet (hne : h ≠ .sync1) : ∀ a ∈ [Action.dispatched h p.b2 p.b3 p.b4], Quiet a := by
        intro a ha
        rw [List.mem_singleton] at ha
        subst ha
        cases h <;> simp_all [Quiet, masterData, slaveData]
      simp only [Server.dispatch, hhandler]
      cases h with
      | sync1 => exact .calls
      | version =>
          by_cases hversion : (p.b2, p.b3, p.b4) ≠ (1, 4, 0)
          · simp only [handle, if_pos hversion]
            exact Dispatched.leaves (quiet_left_version p)
          · simp only [handle, if_neg hversion]
            exact .sends (by simp [statusPacket]) (hquiet (by simp))
      | joypadUpdate => exact .returns (hquiet (by simp))
      | sync2 => exact .returns (hquiet (by simp))
      | sync3 => exact .sends (by simp) (hquiet (by simp))
      | status => exact .sends (by simp [statusPacket]) (hquiet (by simp))
      | wantDisconnect => exact .returns (hquiet (by simp))

/-- A packet is handled when all before it have been answered. -/
theorem inv_dispatched {server server' : Server} {p : Packet} (h : Dispatched server p server')
    (hlog : Always (Answers game g₀) server.log) (hasked : s.asked = false)
    (hlink : LinkPhase game s.link (.idle (after game.device g₀ (masterBytes server.log))))
    (hthreads : ∀ x ∈ server.threads, x.1.type ≠ 105) :
    Inv game g₀ { s with server := server' } := by
  have hquiescent : Quiescent game g₀ (masterBytes server.log) s.asked s.link := ⟨hasked, hlink⟩
  cases h with
  | calls =>
      have hbytes : masterBytes (.called .masterDataHandler p.b2 ::
          .dispatched .sync1 p.b2 p.b3 p.b4 :: server.log) = masterBytes server.log ++ [p.b2] :=
        List.reverse_cons
      refine ⟨⟨?_, ?_, hlog⟩, .calling ?_ ?_, hthreads⟩
      · exact Quiet.answers ⟨rfl, rfl⟩ _
      · intro b hb
        cases hb
      · exact .cons rfl (happenedSince_cons_self rfl rfl)
      · simp only [hasked, hbytes]
        exact .called rfl hlink
  | sends hm hquiet =>
      exact ⟨always_quiet hquiet hlog, .sending hm (hquiescent.quiet hquiet), hthreads⟩
  | returns hquiet =>
      exact ⟨always_quiet hquiet hlog, .checking (hquiescent.quiet hquiet), hthreads⟩
  | leaves hquiet =>
      exact ⟨always_quiet hquiet hlog, .returned (hquiescent.quiet hquiet), hthreads⟩

theorem Inv.receive (h : Inv game g₀ s) (hmain : s.server.main = .receiving) (data : List Byte) :
    Inv game g₀ { s with server := s.server.receive given data } := by
  have hstage := h.stage
  rw [hmain] at hstage
  cases hstage with
  | receiving hlink =>
      cases hunpack : unpack data with
      | none =>
          have hquiet : ∀ a ∈ [Action.left, .received data], Quiet a := by
            simp [Quiet, masterData, slaveData]
          rw [Server.receive_of_not_unpack hunpack]
          exact ⟨always_quiet hquiet h.log, .returned (hlink.quiet hquiet), h.threads⟩
      | some p =>
          have hquiet : ∀ a ∈ [Action.unpacked p, .received data], Quiet a := by
            simp [Quiet, masterData, slaveData]
          have hlog := Server.log_unpacked s.server data p
          rw [Server.receive_of_unpack hunpack]
          refine inv_dispatched (dispatched _ p) ?_ hlink.asked ?_ ?_
          · rw [hlog]
            exact always_quiet hquiet h.log
          · rw [hlog, masterBytes_quiet hquiet]
            exact hlink.link
          · intro x hx
            refine h.threads x ?_
            rwa [Server.unpacked, Server.updateTimestamp_eq] at hx

@[simp] theorem sendPacket_threads (server : Server) (sender : Sender) (m : Message)
    (i1 : UInt32) (ok : Bool) : (server.sendPacket sender m i1 ok).threads = server.threads := by
  unfold Server.sendPacket
  split
  · rfl
  · cases m.pack i1 <;> cases ok <;> rfl

/-- What is sent, or fails to be. -/
theorem sendPacket_log (server : Server) (sender : Sender) (m : Message) (i1 : UInt32) (ok : Bool) :
    (server.sendPacket sender m i1 ok).log = server.log ∨
      ∃ a, (server.sendPacket sender m i1 ok).log = a :: server.log ∧ masterData a = none ∧
        (m.type ≠ 105 → slaveData a = none) ∧
        ∀ b, m = answerMessage b → slaveData a = some b := by
  cases hreaches : server.reachesConnection m i1 with
  | false => exact .inl (Server.sendPacket_log_of_not_reaches sender ok hreaches)
  | true =>
      obtain ⟨p, hpack, hlog⟩ := Server.sendPacket_log_of_reaches sender ok hreaches
      refine .inr ⟨_, hlog, ?_, ?_, ?_⟩
      · cases ok <;> rfl
      · intro hm
        have hb1 : p.b1 ≠ 105 := by
          unfold Message.pack at hpack
          split at hpack <;> cases hpack
          exact hm
        cases ok <;> simp [slaveData, hb1]
      · rintro b rfl
        have hp : p.b1 = 105 ∧ p.b2 = b := by
          have hlt := b.toNat_lt
          rw [Message.pack, if_pos (by simp only [answerMessage]; omega)] at hpack
          cases hpack
          exact ⟨rfl, by simp [answerMessage]⟩
        cases ok <;> simp [slaveData, hp.1, hp.2]

theorem Inv.server (h : Inv game g₀ s) {l : Bgb.Label} {server : Server}
    (hmove : Move given s.server l server) (hl : ∀ response, l ≠ .callback (.returns response)) :
    Inv game g₀ { s with server } := by
  obtain ⟨hlog, hstage, hthreads⟩ := h
  cases hmove with
  | accept hmain =>
      rw [hmain] at hstage
      cases hstage with
      | listening hlink => exact ⟨hlog, .sending (by simp [versionPacket]) hlink, hthreads⟩
  | goOn hmain _ =>
      rw [hmain] at hstage
      cases hstage with
      | checking hlink => exact ⟨hlog, .receiving hlink, hthreads⟩
  | stopped hmain _ =>
      rw [hmain] at hstage
      cases hstage with
      | checking hlink =>
          exact ⟨always_quiet quiet_left hlog, .returned (hlink.quiet quiet_left), hthreads⟩
  | receive hmain _ => exact Inv.receive ⟨hlog, hstage, hthreads⟩ hmain _
  | recvError hmain =>
      rw [hmain] at hstage
      cases hstage with
      | receiving hlink =>
          exact ⟨always_quiet quiet_left hlog, .returned (hlink.quiet quiet_left), hthreads⟩
  | raise hmain =>
      rw [hmain] at hstage
      cases hstage with
      | calling _ hcalling =>
          exact ⟨always_quiet quiet_left hlog, .raised (hcalling.quiet quiet_left), hthreads⟩
  | silence => exact absurd rfl (hl _)
  | answer => exact absurd rfl (hl _)
  | @send sender m i1 ok hmain =>
      rw [hmain] at hstage
      have hthreads' : ∀ x ∈ (s.server.sendPacket sender m i1 ok).threads, x.1.type ≠ 105 := by
        rwa [sendPacket_threads]
      have hlink : Quiescent game g₀ (masterBytes s.server.log) s.asked s.link := by
        cases hstage <;> assumption
      rcases sendPacket_log s.server sender m i1 ok with hsame | ⟨a, ha, hmaster, hother, hanswer⟩
      · refine ⟨?_, .checking ?_, hthreads'⟩
        · rwa [hsame]
        · rwa [hsame]
      · have hbytes : masterBytes (a :: s.server.log) = masterBytes s.server.log := by
          rw [masterBytes, List.filterMap_cons_none hmaster, masterBytes]
        refine ⟨?_, .checking ?_, hthreads'⟩
        · rw [ha]
          refine ⟨fun b hb => ?_, hlog⟩
          cases hstage with
          | answering hunsent _ =>
              rw [hanswer _ rfl] at hb
              cases hb
              exact hunsent
          | sending hm _ =>
              rw [hother hm] at hb
              cases hb
        · rwa [ha, hbytes]
  | stop => exact ⟨hlog, hstage, hthreads⟩
  | sendMasterByte =>
      refine ⟨hlog, hstage, fun x hx => ?_⟩
      rcases List.mem_append.mp hx with hx | hx
      · exact hthreads x hx
      · rw [List.mem_singleton] at hx
        rw [hx]
        simp [masterByte]
  | @threadSend i m i1 ok hthread =>
      have hm : m.type ≠ 105 := hthreads _ (List.mem_of_getElem? hthread)
      have hthreads' : ∀ x ∈ s.server.threads.eraseIdx i, x.1.type ≠ 105 :=
        fun x hx => hthreads x (List.mem_of_mem_eraseIdx hx)
      rcases sendPacket_log s.server .thread m i1 ok with hsame | ⟨a, ha, hmaster, hother, _⟩
      · refine ⟨?_, ?_, hthreads'⟩
        · rwa [hsame]
        · simpa only [hsame, Server.sendPacket_main] using hstage
      · have hquiet : ∀ a' ∈ [a], Quiet a' := by
          intro a' ha'
          rw [List.mem_singleton] at ha'
          exact ha' ▸ ⟨hmaster, hother hm⟩
        refine ⟨?_, ?_, hthreads'⟩
        · rw [ha]
          exact always_quiet hquiet hlog
        · have hstage' : Stage game g₀ (a :: s.server.log) s.asked s.link s.server.main :=
            hstage.quiet hquiet
          simpa only [ha, Server.sendPacket_main] using hstage'

/-! ## The steps of the handler -/

theorem Inv.ask (h : Inv game g₀ s) {callback : Callback}
    (hmain : s.server.main = .calling callback data) (hasked : s.asked = false) :
    Inv game g₀ { s with asked := true, link := (serialLink game).ask s.link data } := by
  obtain ⟨hlog, hstage, hthreads⟩ := h
  refine ⟨hlog, ?_, hthreads⟩
  rw [hmain, hasked] at hstage
  simp only [hmain]
  cases hstage with
  | calling hsince hcalling =>
      cases hcalling with
      | called hbytes hidle =>
          exact .calling hsince (.asked hbytes ((serves_serialLink game).ask hidle data))

theorem Calling.step {asked : Bool} {link link' : Link γ}
    (h : Calling game g₀ bytes data asked link) {l : LinkLabel}
    (hstep : (serialLink game).step link l = some link') :
    Calling game g₀ bytes data asked link' := by
  have hserves := serves_serialLink game
  cases h with
  | called hbytes hidle => exact .called hbytes (hserves.step_idle hidle hstep)
  | asked hbytes hR =>
      rcases hserves.step_asked hR hstep with hR | hR
      · exact .asked hbytes hR
      · exact .answered hbytes hR
  | answered hbytes hR => exact .answered hbytes (hserves.step_answered hR hstep)

theorem Inv.link (h : Inv game g₀ s) {l : LinkLabel} {link : Link γ}
    (hstep : (serialLink game).step s.link l = some link) : Inv game g₀ { s with link } := by
  obtain ⟨hlog, hstage, hthreads⟩ := h
  have hquiescent (hlink : Quiescent game g₀ (masterBytes s.server.log) s.asked s.link) :
      Quiescent game g₀ (masterBytes s.server.log) s.asked link :=
    ⟨hlink.asked, (serves_serialLink game).step_idle hlink.link hstep⟩
  refine ⟨hlog, ?_, hthreads⟩
  simp only
  generalize s.server.main = main at hstage ⊢
  cases hstage with
  | calling hsince hcalling => exact .calling hsince (hcalling.step hstep)
  | answering hunsent hlink => exact .answering hunsent (hquiescent hlink)
  | sending hm hlink => exact .sending hm (hquiescent hlink)
  | listening hlink => exact .listening (hquiescent hlink)
  | checking hlink => exact .checking (hquiescent hlink)
  | receiving hlink => exact .receiving (hquiescent hlink)
  | returned hlink => exact .returned (hquiescent hlink)
  | raised hcalling => exact .raised (hcalling.step hstep)

/-- The handler returns what the Game Boy has answered. -/
theorem Inv.answer (h : Inv game g₀ s) {callback : Callback} {link : Link γ} {server : Server}
    (hmain : s.server.main = .calling callback data) (hasked : s.asked = true)
    (hanswer : (serialLink game).answer s.link = some (b, link))
    (hstep : Bgb.step given s.server (.callback (.returns (some b.toNat))) = some server) :
    Inv game g₀ { server, asked := false, link } := by
  obtain ⟨hlog, hstage, hthreads⟩ := h
  rw [hmain, hasked] at hstage
  simp only [Bgb.step, hmain] at hstep
  cases hstage with
  | calling hsince hcalling =>
      simp only [Bgb.answer] at hstep
      cases hstep
      cases hcalling with
      | asked hbytes hR =>
          obtain ⟨_, hp, _⟩ := (serves_serialLink game).answer hR hanswer
          cases hp
      | @answered _ done hbytes hR =>
          obtain ⟨g, hp, hidle⟩ := (serves_serialLink game).answer hR hanswer
          injection hp with hg hb
          subst hg hb
          have hlast : (answers game.device g₀ (masterBytes s.server.log)).getLast? =
              some (game.device (after game.device g₀ done) data).2 := by
            rw [hbytes, answers_append]
            simp [answers]
          have hidle' : LinkPhase game link
              (.idle (after game.device g₀ (masterBytes s.server.log))) := by
            rw [hbytes, after_append]
            exact hidle
          exact ⟨hlog, .answering ⟨hlast, hsince⟩ ⟨rfl, hidle'⟩, hthreads⟩

theorem Inv.step (h : Inv game g₀ s) {l : Label} (hstep : step game s l = some s') :
    Inv game g₀ s' := by
  cases l with
  | server l =>
      by_cases hl : ∃ response, l = .callback (.returns response)
      · obtain ⟨response, rfl⟩ := hl
        cases hstep
      · have hserver : (Bgb.step given s.server l).map (fun server => { s with server }) =
            some s' := by
          rw [← hstep]
          unfold BgbSerialLink.step
          split
          · rename_i response heq
            cases heq
            exact absurd ⟨response, rfl⟩ hl
          · rename_i heq
            cases heq
            rfl
          all_goals rename_i heq; cases heq
        obtain ⟨server, hmove, rfl⟩ := Option.map_eq_some_iff.mp hserver
        exact h.server (move_of_step hmove) fun response heq => hl ⟨response, heq⟩
  | ask =>
      simp only [BgbSerialLink.step] at hstep
      split at hstep <;> cases hstep
      exact h.ask ‹_› ‹_›
  | link l =>
      obtain ⟨link, hlink, rfl⟩ := Option.map_eq_some_iff.mp hstep
      exact h.link hlink
  | answer =>
      simp only [BgbSerialLink.step] at hstep
      split at hstep
      · rename_i hmain hasked hanswer
        obtain ⟨server, hserver, rfl⟩ := Option.map_eq_some_iff.mp hstep
        exact h.answer hmain hasked hanswer hserver
      · cases hstep

/-- The link has been opened, and `run` is waiting for the emulator. -/
def init (board : Board γ) : State γ := { link := openLink board }

theorem inv_init {board : Board γ} (h : Waits game board g₀) : Inv game g₀ (init board) :=
  ⟨trivial, .listening ⟨rfl, linkPhase_openLink h⟩, by simp [init]⟩

/-- The Game Boy at the serial port. -/
def State.gameBoy (s : State γ) : γ := s.link.inner.board.port.state

theorem gameBoy_of_linkPhase {link : Link γ} {p : Phase γ Byte Byte}
    (h : LinkPhase game link p) : link.inner.board.port.state = p.state := by
  obtain ⟨p', hsketch, hp'⟩ := h.inner
  rw [hsketch.state, hp']

/-- The Game Boy has been clocked in all the bytes, or all but the last. -/
theorem Inv.gameBoy (h : Inv game g₀ s) :
    ∃ done, s.gameBoy = after game.device g₀ done ∧
      (masterBytes s.server.log = done ∨ ∃ data, masterBytes s.server.log = done ++ [data]) := by
  have hquiescent (hlink : Quiescent game g₀ (masterBytes s.server.log) s.asked s.link) :
      ∃ done, s.gameBoy = after game.device g₀ done ∧
        (masterBytes s.server.log = done ∨ ∃ data, masterBytes s.server.log = done ++ [data]) :=
    ⟨_, gameBoy_of_linkPhase hlink.link, .inl rfl⟩
  have hcalling {data : Byte}
      (hcalling : Calling game g₀ (masterBytes s.server.log) data s.asked s.link) :
      ∃ done, s.gameBoy = after game.device g₀ done ∧
        (masterBytes s.server.log = done ∨ ∃ data, masterBytes s.server.log = done ++ [data]) := by
    rw [State.gameBoy]
    generalize s.asked = asked, s.link = link at hcalling ⊢
    cases hcalling with
    | called hbytes hR => exact ⟨_, gameBoy_of_linkPhase hR, .inr ⟨_, hbytes⟩⟩
    | asked hbytes hR => exact ⟨_, gameBoy_of_linkPhase hR, .inr ⟨_, hbytes⟩⟩
    | answered hbytes hR =>
        refine ⟨_, ?_, .inl hbytes⟩
        rw [gameBoy_of_linkPhase hR, after_append]
        rfl
  have hstage := h.stage
  cases hmain : s.server.main <;> rw [hmain] at hstage <;> cases hstage <;>
    first | exact hquiescent ‹_› | exact hcalling ‹_›

/-- In every run of the server, its threads, the serial link and the adapter, and however sends
fail: every slave data packet carries what the Game Boy has answered to the byte of the last
sync1 packet, there is one at most for each of them, and the Game Boy has been clocked in their
bytes and no others. -/
theorem emulator_answered {board : Board γ} (hwaits : Waits game board g₀)
    (h : Reachable (Fires (step game)) (init board) s) :
    Always (Answers game g₀) s.server.log ∧
      ∃ done, s.gameBoy = after game.device g₀ done ∧
        (masterBytes s.server.log = done ∨
          ∃ data, masterBytes s.server.log = done ++ [data]) := by
  have hinv : Inv game g₀ s :=
    h.invariant (I := Inv game g₀) (inv_init hwaits) fun _ _ _ ht hfire => ht.step hfire
  exact ⟨hinv.log, hinv.gameBoy⟩

/-- A sync1 packet has been answered by a game that answers 7 to everything. -/
theorem emulator_answered_once :
    ∃ s : State Byte, masterBytes s.server.log = [5] ∧
      s.server.log.filterMap slaveData = [7] ∧
      Always (Answers { next := id, receive := fun g _ => g } (7 : Byte)) s.server.log := by
  let game : Game Byte := { next := id, receive := fun g _ => g }
  let board : Board Byte :=
    { clk := true, so := true, port := { state := 7, register := 7, out := true } }
  have hwaits : Waits game board (7 : Byte) := ⟨rfl, rfl, rfl, .inl rfl⟩
  have hrun : (exec (step game) (init board)
      [.link (.inner .setup), .link .wake, .server .accept, .server (.send true),
        .server .check, .server (.recv [104, 5, 0x81, 0, 0, 0, 0, 0]), .ask, .link .receive,
        .link .pass, .link (.inner .read), .link (.inner .transfer), .link (.inner .write),
        .link .collect, .link .deliver, .answer, .server (.send true)]).any
      (fun s => decide (masterBytes s.server.log = [5] ∧
        s.server.log.filterMap slaveData = [7])) = true := by decide +kernel
  obtain ⟨s, hreach, hs⟩ := exists_reachable_of_exec hrun
  rw [decide_eq_true_iff] at hs
  exact ⟨s, hs.1, hs.2, (emulator_answered hwaits hreach).1⟩

end GbPlay.Tools.BgbSerialLink
