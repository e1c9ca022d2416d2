import GbPlay.Library.Machines
import GbPlay.Tools.BgbSerialLink
import GbPlay.Tools.SerialServer

/-!
# A server whose data handler answers at once

`BGBLinkCableServer.run` with a master data handler that returns a byte or raises, and
keeps a state.  Whatever the other threads do and however sends fail, the handler is
called with the bytes of the emulator, and `run` tries to send what it returns; the
emulator is sent all of it but the bytes whose send has failed.

Nothing but the calls, newest first, and what the handler has raised is not in the
source.
-/

namespace GbPlay.Tools.Bgb.Handled

open GbPlay.Library.Histories GbPlay.Library.Machines GbPlay.Library.Runs GbPlay.Server.Client
  GbPlay.Tools.BgbSerialLink
open GbPlay.Tools.SerialServer (DataHandler)

structure State (σ ε : Type*) where
  server : Server := {}
  handler : σ
  calls : List (Call σ (Option Byte) Byte) := []
  raised : Option ε := none

inductive Label
  | server (l : Bgb.Label)
  | call
  deriving DecidableEq, Repr

variable {σ ε : Type*}

def step (f : DataHandler σ ε) (s : State σ ε) : Label → Option (State σ ε)
  | .server (.callback _) => none
  | .server l => (Bgb.step given s.server l).map fun server => { s with server }
  | .call =>
      match s.server.main with
      | .calling _ data =>
          match f s.handler (some data) with
          | .ok (handler, response) =>
              (Bgb.step given s.server (.callback (.returns (some response.toNat)))).map
                fun server => { s with
                  server, handler
                  calls := ⟨s.handler, some data, response, handler⟩ :: s.calls }
          | .error e =>
              (Bgb.step given s.server (.callback .raises)).map
                fun server => { s with server, raised := some e }
      | _ => none

def start (handler : σ) : State σ ε := { handler }

/-! ## What has been received and sent -/

/-- The byte of a slave data packet, and whether the connection has taken it. -/
def slaveSend : Action → Option (Byte × Bool)
  | .sent _ p => if p.b1 = 105 then some (p.b2, true) else none
  | .sendFailed _ p => if p.b1 = 105 then some (p.b2, false) else none
  | _ => none

/-- The slave data packets that `run` has tried to send, in order; it goes on after a failure. -/
def slaveSends (log : List Action) : List (Byte × Bool) := (log.filterMap slaveSend).reverse

/-- What the emulator has been sent in them. -/
def sentBytes (log : List Action) : List Byte := ((slaveSends log).filter Prod.snd).map Prod.fst

variable {f : DataHandler σ ε} {s₀ handler : σ} {s s' : State σ ε} {raised : Option ε}
  {calls : List (Call σ (Option Byte) Byte)} {log actions : List Action} {data b : Byte}
  {isRunning : Bool} {main : Main}

theorem slaveSend_map_fst (a : Action) : (slaveSend a).map Prod.fst = slaveData a := by
  cases a with
  | sent _ p | sendFailed _ p =>
      simp only [slaveSend, slaveData]
      split <;> rfl
  | _ => rfl

theorem slaveSends_quiet (h : ∀ a ∈ actions, Quiet a) :
    slaveSends (actions ++ log) = slaveSends log := by
  have hnone : actions.filterMap slaveSend = [] := by
    rw [List.filterMap_eq_nil_iff]
    intro a ha
    rw [← Option.map_eq_none_iff, slaveSend_map_fst]
    exact (h a ha).2
  rw [slaveSends, List.filterMap_append, hnone, List.nil_append, slaveSends]

theorem sentBytes_of_all {sends rest : List (Byte × Bool)} (h : slaveSends log = sends ++ rest)
    (hsent : ∀ x ∈ sends, x.2 = true) : sends.map Prod.fst <+: sentBytes log := by
  rw [sentBytes, h, List.filter_append, List.filter_eq_self.mpr hsent, List.map_append]
  exact List.prefix_append _ _

/-- The handler has been called with every byte of the emulator but those left, and for all it has
returned a send has been tried but for what is pending. -/
structure Accounted (calls : List (Call σ (Option Byte) Byte)) (log : List Action)
    (left pending : List Byte) : Prop where
  received : (masterBytes log).map some = passed calls ++ left.map some
  tried : returned calls = (slaveSends log).map Prod.fst ++ pending

variable {left pending : List Byte}

theorem Accounted.quiet (h : Accounted calls log left pending) (hactions : ∀ a ∈ actions, Quiet a) :
    Accounted calls (actions ++ log) left pending := by
  refine ⟨?_, ?_⟩
  · rw [masterBytes_quiet hactions]
    exact h.received
  · rw [slaveSends_quiet hactions]
    exact h.tried

/-- A sync1 packet is handled. -/
theorem Accounted.receive (h : Accounted calls log [] []) (p : Packet) :
    Accounted calls (.called .masterDataHandler p.b2 :: .dispatched .sync1 p.b2 p.b3 p.b4 :: log)
      [p.b2] [] := by
  obtain ⟨hreceived, htried⟩ := h
  have hbytes : masterBytes (.called .masterDataHandler p.b2 ::
      .dispatched .sync1 p.b2 p.b3 p.b4 :: log) = masterBytes log ++ [p.b2] := List.reverse_cons
  refine ⟨?_, htried⟩
  rw [hbytes, List.map_append, hreceived]
  simp

theorem Accounted.call (h : Accounted calls log [data] []) (s t : σ) (b : Byte) :
    Accounted (⟨s, some data, b, t⟩ :: calls) log [] [b] := by
  obtain ⟨hreceived, htried⟩ := h
  rw [List.append_nil] at htried
  refine ⟨?_, ?_⟩
  · rw [hreceived, passed_cons]
    simp
  · rw [returned_cons, htried]

/-- A slave data packet is sent, or that fails. -/
theorem Accounted.send (h : Accounted calls log [] [b]) {a : Action} (hmaster : masterData a = none)
    (hslave : slaveData a = some b) : Accounted calls (a :: log) [] [] := by
  obtain ⟨hreceived, htried⟩ := h
  refine ⟨?_, ?_⟩
  · rw [masterBytes, List.filterMap_cons_none hmaster]
    exact hreceived
  · obtain ⟨⟨_, ok⟩, hsend, rfl⟩ := Option.map_eq_some_iff.mp ((slaveSend_map_fst a).trans hslave)
    rw [htried, slaveSends, slaveSends, List.filterMap_cons_some hsend, List.reverse_cons,
      List.map_append, List.append_nil]
    rfl

/-! ## The invariant -/

/-- How far the last byte has come while `run` is at `main`. -/
inductive Stage (f : DataHandler σ ε) (handler : σ) (calls : List (Call σ (Option Byte) Byte))
    (raised : Option ε) (isRunning : Bool) (log : List Action) : Main → Prop
  | calling {data : Byte} : raised = none → Accounted calls log [data] [] →
      Stage f handler calls raised isRunning log (.calling .masterDataHandler data)
  | answering {sender : Sender} {b : Byte} {i1 : UInt32} : raised = none →
      Accounted calls log [] [b] →
      Stage f handler calls raised isRunning log (.sending sender (answerMessage b) i1)
  | sending {sender : Sender} {m : Message} {i1 : UInt32} : raised = none → m.type ≠ 105 →
      Accounted calls log [] [] →
      Stage f handler calls raised isRunning log (.sending sender m i1)
  | listening : raised = none → Accounted calls log [] [] →
      Stage f handler calls raised isRunning log .listening
  | checking : raised = none → Accounted calls log [] [] →
      Stage f handler calls raised isRunning log .checking
  /-- It is not sent, as the server has been stopped. -/
  | stopped {b : Byte} : raised = none → isRunning = false → Accounted calls log [] [b] →
      Stage f handler calls raised isRunning log .checking
  | receiving : raised = none → Accounted calls log [] [] →
      Stage f handler calls raised isRunning log .receiving
  | returned {pending : List Byte} : raised = none → pending.length ≤ 1 →
      Accounted calls log [] pending → Stage f handler calls raised isRunning log .returned
  | raised {data : Byte} {e : ε} : raised = some e → f handler (some data) = .error e →
      Accounted calls log [data] [] → Stage f handler calls raised isRunning log .returned

structure Inv (f : DataHandler σ ε) (s₀ : σ) (s : State σ ε) : Prop where
  made : Made f s₀ s.calls s.handler
  stage : Stage f s.handler s.calls s.raised s.server.isRunning s.server.log s.server.main
  threads : ∀ x ∈ s.server.threads, x.1.type ≠ 105

theorem Stage.quiet (h : Stage f handler calls raised isRunning log main)
    (hactions : ∀ a ∈ actions, Quiet a) :
    Stage f handler calls raised isRunning (actions ++ log) main := by
  cases h with
  | calling hraised h => exact .calling hraised (h.quiet hactions)
  | answering hraised h => exact .answering hraised (h.quiet hactions)
  | sending hraised hm h => exact .sending hraised hm (h.quiet hactions)
  | listening hraised h => exact .listening hraised (h.quiet hactions)
  | checking hraised h => exact .checking hraised (h.quiet hactions)
  | stopped hraised hstopped h => exact .stopped hraised hstopped (h.quiet hactions)
  | receiving hraised h => exact .receiving hraised (h.quiet hactions)
  | returned hraised hlength h => exact .returned hraised hlength (h.quiet hactions)
  | raised hraised herror h => exact .raised hraised herror (h.quiet hactions)

theorem Stage.stop (h : Stage f handler calls raised isRunning log main) :
    Stage f handler calls raised false log main := by
  cases h with
  | calling hraised h => exact .calling hraised h
  | answering hraised h => exact .answering hraised h
  | sending hraised hm h => exact .sending hraised hm h
  | listening hraised h => exact .listening hraised h
  | checking hraised h => exact .checking hraised h
  | stopped hraised _ h => exact .stopped hraised rfl h
  | receiving hraised h => exact .receiving hraised h
  | returned hraised hlength h => exact .returned hraised hlength h
  | raised hraised herror h => exact .raised hraised herror h

/-! ## The steps of the server -/

theorem inv_dispatched {server server' : Server} {p : Packet} (h : Dispatched server p server')
    (hmade : Made f s₀ s.calls s.handler) (hraised : s.raised = none)
    (haccounted : Accounted s.calls server.log [] [])
    (hthreads : ∀ x ∈ server.threads, x.1.type ≠ 105) :
    Inv f s₀ { s with server := server' } := by
  cases h with
  | calls => exact ⟨hmade, .calling hraised (haccounted.receive p), hthreads⟩
  | sends hm hquiet => exact ⟨hmade, .sending hraised hm (haccounted.quiet hquiet), hthreads⟩
  | returns hquiet => exact ⟨hmade, .checking hraised (haccounted.quiet hquiet), hthreads⟩
  | leaves hquiet =>
      exact ⟨hmade, .returned hraised (Nat.zero_le _) (haccounted.quiet hquiet), hthreads⟩

theorem Inv.receive (h : Inv f s₀ s) (hmain : s.server.main = .receiving) (data : List Byte) :
    Inv f s₀ { s with server := s.server.receive given data } := by
  obtain ⟨hmade, hstage, hthreads⟩ := h
  rw [hmain] at hstage
  cases hstage with
  | receiving hraised haccounted =>
      cases hunpack : unpack data with
      | none =>
          have hquiet : ∀ a ∈ [Action.left, .received data], Quiet a := by
            simp [Quiet, masterData, slaveData]
          rw [Server.receive_of_not_unpack hunpack]
          exact ⟨hmade, .returned hraised (Nat.zero_le _) (haccounted.quiet hquiet), hthreads⟩
      | some p =>
          have hquiet : ∀ a ∈ [Action.unpacked p, .received data], Quiet a := by
            simp [Quiet, masterData, slaveData]
          rw [Server.receive_of_unpack hunpack]
          refine inv_dispatched (dispatched _ p) hmade hraised ?_ ?_
          · rw [Server.log_unpacked]
            exact haccounted.quiet hquiet
          · intro x hx
            refine hthreads x ?_
            rwa [Server.unpacked, Server.updateTimestamp_eq] at hx

theorem pack_answerMessage (b : Byte) (i1 : UInt32) :
    ((answerMessage b).pack i1).isSome = true := by
  have hlt := b.toNat_lt
  rw [Message.pack, if_pos (by simp only [answerMessage]; omega)]
  rfl

theorem Inv.send (h : Inv f s₀ s) {sender : Sender} {m : Message} {i1 : UInt32} (ok : Bool)
    (hmain : s.server.main = .sending sender m i1) :
    Inv f s₀ { s with
      server := { s.server.sendPacket sender m i1 ok with main := .checking } } := by
  obtain ⟨hmade, hstage, hthreads⟩ := h
  rw [hmain] at hstage
  have hthreads' : ∀ x ∈ (s.server.sendPacket sender m i1 ok).threads, x.1.type ≠ 105 := by
    rwa [sendPacket_threads]
  refine ⟨hmade, ?_, hthreads'⟩
  simp only [Server.sendPacket_isRunning]
  cases hstage with
  | @answering _ b _ hraised haccounted =>
      cases hrunning : s.server.isRunning with
      | false =>
          have hreaches : s.server.reachesConnection (answerMessage b) i1 = false := by
            simp [Server.reachesConnection, hrunning]
          rw [Server.sendPacket_log_of_not_reaches sender ok hreaches]
          exact .stopped hraised rfl haccounted
      | true =>
          have hreaches : s.server.reachesConnection (answerMessage b) i1 = true := by
            simp [Server.reachesConnection, hrunning, pack_answerMessage]
          obtain ⟨p, _, hlog⟩ := Server.sendPacket_log_of_reaches sender ok hreaches
          rcases sendPacket_log s.server sender (answerMessage b) i1 ok with
            hsame | ⟨a, ha, hmaster, _, hanswer⟩
          · rw [hsame] at hlog
            exact absurd hlog.symm (List.cons_ne_self _ _)
          · rw [ha]
            exact .checking hraised (haccounted.send hmaster (hanswer b rfl))
  | sending hraised hm haccounted =>
      rcases sendPacket_log s.server sender m i1 ok with hsame | ⟨a, ha, hmaster, hother, _⟩
      · rw [hsame]
        exact .checking hraised haccounted
      · have hquiet : ∀ a' ∈ [a], Quiet a' := by
          intro a' ha'
          rw [List.mem_singleton] at ha'
          exact ha' ▸ ⟨hmaster, hother hm⟩
        rw [ha]
        exact .checking hraised (haccounted.quiet hquiet)

theorem Inv.server (h : Inv f s₀ s) {l : Bgb.Label} {server : Server}
    (hmove : Move given s.server l server) (hl : ∀ response, l ≠ .callback response) :
    Inv f s₀ { s with server } := by
  obtain ⟨hmade, hstage, hthreads⟩ := h
  cases hmove with
  | accept hmain =>
      rw [hmain] at hstage
      cases hstage with
      | listening hraised haccounted =>
          exact ⟨hmade, .sending hraised (by simp [versionPacket]) haccounted, hthreads⟩
  | goOn hmain hrunning =>
      rw [hmain] at hstage
      cases hstage with
      | checking hraised haccounted => exact ⟨hmade, .receiving hraised haccounted, hthreads⟩
      | stopped _ hstopped =>
          rw [hrunning] at hstopped
          cases hstopped
  | stopped hmain _ =>
      rw [hmain] at hstage
      cases hstage with
      | checking hraised haccounted =>
          exact ⟨hmade, .returned hraised (Nat.zero_le _) (haccounted.quiet quiet_left), hthreads⟩
      | stopped hraised _ haccounted =>
          exact ⟨hmade, .returned hraised (Nat.le_refl _) (haccounted.quiet quiet_left), hthreads⟩
  | receive hmain _ => exact Inv.receive ⟨hmade, hstage, hthreads⟩ hmain _
  | recvError hmain =>
      rw [hmain] at hstage
      cases hstage with
      | receiving hraised haccounted =>
          exact ⟨hmade, .returned hraised (Nat.zero_le _) (haccounted.quiet quiet_left), hthreads⟩
  | raise => exact absurd rfl (hl _)
  | silence => exact absurd rfl (hl _)
  | answer => exact absurd rfl (hl _)
  | send hmain => exact Inv.send ⟨hmade, hstage, hthreads⟩ _ hmain
  | stop => exact ⟨hmade, hstage.stop, hthreads⟩
  | sendMasterByte =>
      refine ⟨hmade, hstage, fun x hx => ?_⟩
      rcases List.mem_append.mp hx with hx | hx
      · exact hthreads x hx
      · rw [List.mem_singleton] at hx
        rw [hx]
        simp [masterByte]
  | @threadSend i m i1 ok hthread =>
      have hm : m.type ≠ 105 := hthreads _ (List.mem_of_getElem? hthread)
      have hthreads' : ∀ x ∈ s.server.threads.eraseIdx i, x.1.type ≠ 105 :=
        fun x hx => hthreads x (List.mem_of_mem_eraseIdx hx)
      refine ⟨hmade, ?_, hthreads'⟩
      simp only [Server.sendPacket_isRunning, Server.sendPacket_main]
      rcases sendPacket_log s.server .thread m i1 ok with hsame | ⟨a, ha, hmaster, hother, _⟩
      · rwa [hsame]
      · have hquiet : ∀ a' ∈ [a], Quiet a' := by
          intro a' ha'
          rw [List.mem_singleton] at ha'
          exact ha' ▸ ⟨hmaster, hother hm⟩
        rw [ha]
        exact hstage.quiet hquiet

/-! ## The calls of the handler -/

theorem Inv.call (h : Inv f s₀ s) {callback : Callback} {server : Server} {t : σ}
    (hmain : s.server.main = .calling callback data)
    (hcall : f s.handler (some data) = .ok (t, b))
    (hstep : Bgb.step given s.server (.callback (.returns (some b.toNat))) = some server) :
    Inv f s₀ { s with
      server, handler := t, calls := ⟨s.handler, some data, b, t⟩ :: s.calls } := by
  obtain ⟨hmade, hstage, hthreads⟩ := h
  rw [hmain] at hstage
  simp only [Bgb.step, hmain] at hstep
  cases hstage with
  | calling hraised haccounted =>
      simp only [Bgb.answer] at hstep
      cases hstep
      exact ⟨.cons hmade hcall, .answering hraised (haccounted.call _ _ _), hthreads⟩

theorem Inv.raise (h : Inv f s₀ s) {callback : Callback} {server : Server} {e : ε}
    (hmain : s.server.main = .calling callback data)
    (herror : f s.handler (some data) = .error e)
    (hstep : Bgb.step given s.server (.callback .raises) = some server) :
    Inv f s₀ { s with server, raised := some e } := by
  obtain ⟨hmade, hstage, hthreads⟩ := h
  rw [hmain] at hstage
  simp only [Bgb.step, hmain] at hstep
  cases hstep
  cases hstage with
  | calling _ haccounted =>
      exact ⟨hmade, .raised rfl herror (haccounted.quiet quiet_left), hthreads⟩

theorem Inv.step (h : Inv f s₀ s) {l : Label} (hstep : step f s l = some s') : Inv f s₀ s' := by
  cases l with
  | server l =>
      by_cases hl : ∃ response, l = .callback response
      · obtain ⟨response, rfl⟩ := hl
        cases hstep
      · have hserver : (Bgb.step given s.server l).map (fun server => { s with server }) =
            some s' := by
          rw [← hstep]
          unfold Handled.step
          split
          · rename_i response heq
            cases heq
            exact absurd ⟨response, rfl⟩ hl
          · rename_i heq
            cases heq
            rfl
          all_goals rename_i heq; cases heq
        obtain ⟨server, hmove, rfl⟩ := Option.map_eq_some_iff.mp hserver
        exact h.server (move_of_step hmove) fun response heq => hl ⟨response, heq⟩
  | call =>
      simp only [Handled.step] at hstep
      split at hstep
      · split at hstep
        · obtain ⟨server, hserver, rfl⟩ := Option.map_eq_some_iff.mp hstep
          exact h.call ‹_› ‹_› hserver
        · obtain ⟨server, hserver, rfl⟩ := Option.map_eq_some_iff.mp hstep
          exact h.raise ‹_› ‹_› hserver
      · cases hstep

/-- In every run of the server, its threads and its handler. -/
theorem inv_of_reachable (h : Reachable (Fires (Handled.step f)) (start s₀) s) : Inv f s₀ s := by
  refine h.invariant (I := Inv f s₀) ?_ fun _ _ _ ht hfire => ht.step hfire
  exact ⟨.nil, .listening rfl ⟨rfl, rfl⟩, by simp [start]⟩

/-- The handler is called with one byte after the other, and a send of what it returns has been
tried before it is called again. -/
theorem Inv.accounted (h : Inv f s₀ s) :
    ∃ left pending, Accounted s.calls s.server.log left pending ∧
      left.length + pending.length ≤ 1 := by
  have hstage := h.stage
  generalize s.server.main = main at hstage
  cases hstage with
  | calling _ haccounted | raised _ _ haccounted => exact ⟨_, _, haccounted, Nat.le_refl _⟩
  | answering _ haccounted | stopped _ _ haccounted => exact ⟨_, _, haccounted, Nat.le_refl _⟩
  | sending _ _ haccounted | listening _ haccounted | checking _ haccounted
  | receiving _ haccounted => exact ⟨_, _, haccounted, Nat.zero_le _⟩
  | returned _ hlength haccounted => exact ⟨_, _, haccounted, by simpa using hlength⟩

/-- What some calls have returned: `run` has tried to send it, and if each of these sends has
succeeded the emulator has been sent it. -/
structure Delivered (log : List Action) (past : List (Call σ (Option Byte) Byte)) : Prop where
  tried : ((slaveSends log).take past.length).map Prod.fst = returned past
  sent : (∀ x ∈ (slaveSends log).take past.length, x.2 = true) → returned past <+: sentBytes log

/-- Whenever the handler is called. -/
theorem Inv.delivered (h : Inv f s₀ s) :
    Always (fun _ past => Delivered s.server.log past) s.calls := by
  obtain ⟨left, pending, haccounted, hlength⟩ := h.accounted
  refine always_of_splits fun later c past hcalls => ?_
  have hreturned : returned past ++ c.output :: returned later =
      (slaveSends s.server.log).map Prod.fst ++ pending := by
    rw [← haccounted.tried, hcalls, returned_append, returned_cons, List.append_assoc]
    rfl
  have hpast : (returned past).length = past.length := by simp [returned]
  have hle : past.length ≤ ((slaveSends s.server.log).map Prod.fst).length := by
    have := congrArg List.length hreturned
    simp only [List.length_append, List.length_cons] at this
    omega
  have htried : ((slaveSends s.server.log).take past.length).map Prod.fst = returned past :=
    calc ((slaveSends s.server.log).take past.length).map Prod.fst
        = ((slaveSends s.server.log).map Prod.fst).take past.length := List.map_take
      _ = ((slaveSends s.server.log).map Prod.fst ++ pending).take past.length :=
          (List.take_append_of_le_length hle).symm
      _ = returned past := by rw [← hreturned, ← hpast, List.take_left]
  refine ⟨htried, fun hsent => ?_⟩
  rw [← htried]
  exact sentBytes_of_all (List.take_append_drop _ _).symm hsent

/-- The handler has raised when it was called with the last byte. -/
theorem Inv.raised_last (h : Inv f s₀ s) {e : ε} (hraised : s.raised = some e) :
    ∃ b, (masterBytes s.server.log).getLast? = some b ∧ f s.handler (some b) = .error e := by
  have hstage := h.stage
  rw [hraised] at hstage
  generalize s.server.main = main at hstage
  cases hstage with
  | @raised data _ he herror haccounted =>
      cases he
      refine ⟨data, ?_, herror⟩
      have hlast := congrArg List.getLast? haccounted.received
      simpa using hlast
  | _ hnone => cases hnone

end GbPlay.Tools.Bgb.Handled
