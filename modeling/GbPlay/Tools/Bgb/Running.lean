import GbPlay.Tools.Bgb.Server
import GbPlay.Library.Histories

/-!
# Whether a dead link is reported

After a failed send, and after `run` has left its loop, `is_running` should be
false.  `_send_packet` clears another field when a send fails, and the ways out
of the loop clear none.
-/

namespace GbPlay.Tools.Bgb.Running

open GbPlay.Library.Runs GbPlay.Library.Histories
open GbPlay.Server.Client (Byte)

def isSendFailure : Action → Bool
  | .sendFailed _ _ => true
  | _ => false

/-- The link is dead: a send on it has failed or the loop has been left. -/
def isDeath (a : Action) : Bool := isSendFailure a || a = .left

def isDispatch : Action → Bool
  | .dispatched _ _ _ _ => true
  | _ => false

/-- No packet is dispatched after a failed send. -/
def DispatchedAlive (a : Action) (past : List Action) : Prop :=
  isDispatch a = true → past.any isSendFailure = false

instance (a : Action) (past : List Action) : Decidable (DispatchedAlive a past) :=
  inferInstanceAs (Decidable (_ → _))

/-- A dead link is reported as such, and no packet was dispatched after a failed send. -/
structure Reported (s : Server) : Prop where
  notRunning : s.log.any isDeath = true → s.isRunning = false
  dispatched : Always DispatchedAlive s.log

/-! ## What kills a link -/

/-- The step calls `send` on the connection, and that fails. -/
def failsSend (s : Server) : Label → Bool
  | .send false =>
      match s.main with
      | .sending _ m i1 => s.reachesConnection m i1
      | _ => false
  | .threadSend i false =>
      match s.threads[i]? with
      | some (m, i1) => s.reachesConnection m i1
      | none => false
  | _ => false

/-- The step ends the loop, whatever the running flag is. -/
def endsLoop (given : Callback → Bool) : Label → Bool
  | .recv data => endsLoopOn given data
  | .recvError => true
  | .callback .raises => true
  | _ => false

/-- No send fails, and the loop ends only when the server has been stopped. -/
def Orderly (given : Callback → Bool) (s : Server) (l : Label) : Prop :=
  failsSend s l = false ∧ (endsLoop given l = true → s.isRunning = false)

instance (given : Callback → Bool) (s : Server) (l : Label) : Decidable (Orderly given s l) :=
  inferInstanceAs (Decidable (_ ∧ _))

/-! ## Orderly runs -/

/-- Nothing has failed, and the loop is over only if the server has been stopped. -/
structure Alive (s : Server) : Prop where
  noFailure : s.log.any isSendFailure = false
  left : .left ∈ s.log → s.isRunning = false ∧ s.main = .returned
  dispatched : Always DispatchedAlive s.log

theorem alive_init : Alive {} := ⟨rfl, by simp, trivial⟩

section Alive

variable {given : Callback → Bool} {s s' : Server} {sender : Sender} {m : Message}
  {i1 : UInt32} {ok : Bool} {actions : List Action} {main : Main}

theorem Alive.reported (h : Alive s) : Reported s := by
  refine ⟨fun hdeath => ?_, h.dispatched⟩
  obtain ⟨a, hmem, ha⟩ := List.any_eq_true.mp hdeath
  have hnofailure : isSendFailure a = false := by
    simpa using List.any_eq_false.mp h.noFailure a hmem
  have hleft : a = .left := by simpa [isDeath, hnofailure] using ha
  exact (h.left (hleft ▸ hmem)).1

theorem Alive.not_left (h : Alive s) (hmain : s.main ≠ .returned) : .left ∉ s.log :=
  fun hmem => hmain (h.left hmem).2

theorem isSendFailure_of_isInput {a : Action} (h : isInput a = true) : isSendFailure a = false := by
  cases a <;> first | rfl | cases h

theorem any_isSendFailure_append (hactions : ∀ a ∈ actions, isInput a = true) (log : List Action) :
    (actions ++ log).any isSendFailure = log.any isSendFailure := by
  rw [List.any_append]
  have hnone : actions.any isSendFailure = false := by
    rw [List.any_eq_false]
    exact fun a ha => by simp [isSendFailure_of_isInput (hactions a ha)]
  rw [hnone, Bool.false_or]

theorem always_append (hactions : ∀ a ∈ actions, isInput a = true) {log : List Action}
    (hnofailure : log.any isSendFailure = false) (h : Always DispatchedAlive log) :
    Always DispatchedAlive (actions ++ log) := by
  induction actions with
  | nil => exact h
  | cons a actions ih =>
      have hrest : ∀ b ∈ actions, isInput b = true :=
        fun b hb => hactions b (List.mem_cons_of_mem a hb)
      refine ⟨fun _ => ?_, ih hrest⟩
      exact (any_isSendFailure_append hrest log).trans hnofailure

/-- Going on with the loop. -/
theorem Alive.goOn (h : Alive s) (hreturned : s.main ≠ .returned) (actions : List Action)
    (hactions : ∀ a ∈ actions, isInput a = true) (hlog : s'.log = actions ++ s.log) : Alive s' := by
  have hnotInput : .left ∉ actions := fun hmem => nomatch hactions _ hmem
  constructor
  · rw [hlog, any_isSendFailure_append hactions, h.noFailure]
  · intro hmem
    rw [hlog, List.mem_append] at hmem
    exact absurd hmem (not_or.mpr ⟨hnotInput, h.not_left hreturned⟩)
  · rw [hlog]
    exact always_append hactions h.noFailure h.dispatched

theorem Alive.leave (h : Alive s) (hrunning : s.isRunning = false) : Alive s.leave := by
  refine ⟨?_, fun _ => ⟨hrunning, rfl⟩, ?_, h.dispatched⟩
  · simpa [Server.leave, isSendFailure] using h.noFailure
  · intro hdispatch
    cases hdispatch

theorem alive_receive {data : List Byte} (h : Alive s) (hmain : s.main = .receiving)
    (horderly : endsLoopOn given data = true → s.isRunning = false) :
    Alive (s.receive given data) := by
  have hreturned : s.main ≠ .returned := by simp [hmain]
  cases hunpack : unpack data with
  | none =>
      have hreceived : Alive { s with log := .received data :: s.log } :=
        h.goOn hreturned [.received data] (by simp [isInput]) rfl
      rw [Server.receive_of_not_unpack hunpack]
      exact hreceived.leave (horderly (Server.endsLoopOn_of_not_unpack hunpack))
  | some p =>
      have hunpacked : Alive (s.unpacked data p) :=
        h.goOn hreturned [.unpacked p, .received data] (by simp [isInput])
          (Server.log_unpacked s data p)
      obtain ⟨actions, hactions, hcases⟩ :=
        Server.dispatch_cases given (s.unpacked data p) hunpack
      have hgoOn {s' : Server} (hlog : s'.log = actions ++ (s.unpacked data p).log) : Alive s' :=
        hunpacked.goOn (by rw [Server.main_unpacked]; exact hreturned) actions
          (fun a ha => isInput_of_isHandling (hactions a ha)) hlog
      rw [Server.receive_of_unpack hunpack]
      rcases hcases with ⟨hends, heq⟩ | ⟨_, main, heq, _⟩
      · rw [heq]
        refine Alive.leave (hgoOn rfl) ?_
        exact (Server.isRunning_unpacked s data p).trans (horderly hends)
      · rw [heq]
        exact hgoOn rfl

/-- A send that does not fail. -/
theorem Alive.sendPacket (h : Alive s) (hok : ok = false → s.reachesConnection m i1 = false) :
    Alive (s.sendPacket sender m i1 ok) := by
  cases hreaches : s.reachesConnection m i1 with
  | false =>
      have hlog := Server.sendPacket_log_of_not_reaches sender ok hreaches
      refine ⟨hlog ▸ h.noFailure, ?_, hlog ▸ h.dispatched⟩
      rw [hlog, Server.sendPacket_isRunning, Server.sendPacket_main]
      exact h.left
  | true =>
      obtain ⟨p, _, hlog⟩ :=
        Server.sendPacket_log_of_reaches sender ok hreaches
      have htrue : ok = true := by
        cases ok with
        | true => rfl
        | false => exact absurd (hok rfl) (by simp [hreaches])
      rw [htrue, if_pos rfl] at hlog
      rw [htrue]
      refine ⟨?_, ?_, ?_⟩
      · simpa [hlog, isSendFailure] using h.noFailure
      · rw [hlog, Server.sendPacket_isRunning, Server.sendPacket_main]
        intro hmem
        exact h.left (by simpa using hmem)
      · rw [hlog]
        exact ⟨fun hdispatch => (nomatch hdispatch), h.dispatched⟩

theorem alive_step {l : Label} (h : Alive s) (horderly : Orderly given s l)
    (hstep : step given s l = some s') : Alive s' := by
  obtain ⟨hsend, hloop⟩ := horderly
  cases move_of_step hstep with
  | accept hmain => exact h.goOn (by simp [hmain]) [] (by simp) rfl
  | goOn hmain => exact h.goOn (by simp [hmain]) [] (by simp) rfl
  | stopped _ hrunning => exact h.leave hrunning
  | receive hmain => exact alive_receive h hmain hloop
  | recvError => exact h.leave (hloop rfl)
  | raise => exact h.leave (hloop rfl)
  | silence hmain => exact h.goOn (by simp [hmain]) [] (by simp) rfl
  | answer hmain => exact h.goOn (by simp [hmain]) [] (by simp) rfl
  | @send sender m i1 ok hmain =>
      have hsent : Alive (s.sendPacket sender m i1 ok) := by
        apply h.sendPacket
        rintro rfl
        simpa [failsSend, hmain] using hsend
      exact hsent.goOn (by simp [hmain]) [] (by simp) rfl
  | stop => exact ⟨h.noFailure, fun hmem => ⟨rfl, (h.left hmem).2⟩, h.dispatched⟩
  | sendMasterByte => exact ⟨h.noFailure, h.left, h.dispatched⟩
  | @threadSend i m i1 ok hthread =>
      have hsent : Alive (s.sendPacket .thread m i1 ok) := by
        apply h.sendPacket
        rintro rfl
        simpa [failsSend, hthread] using hsend
      exact ⟨hsent.noFailure, hsent.left, hsent.dispatched⟩

end Alive

/-! ## Disorderly steps -/

section Disorderly

variable {given : Callback → Bool} {s s' : Server} {l : Label}

theorem not_reported_of_death (hdeath : s.log.any isDeath = true) (hrunning : s.isRunning = true) :
    ¬ Reported s := by
  intro h
  rw [h.notRunning hdeath] at hrunning
  cases hrunning

theorem not_reported_leave (hrunning : s.isRunning = true) : ¬ Reported s.leave :=
  not_reported_of_death (by simp [Server.leave, isDeath]) hrunning

theorem not_reported_receive {data : List Byte} (hends : endsLoopOn given data = true)
    (hrunning : s.isRunning = true) : ¬ Reported (s.receive given data) := by
  cases hunpack : unpack data with
  | none =>
      rw [Server.receive_of_not_unpack hunpack]
      exact not_reported_leave hrunning
  | some p =>
      obtain ⟨actions, _, hcases⟩ := Server.dispatch_cases given (s.unpacked data p) hunpack
      rcases hcases with ⟨_, heq⟩ | ⟨hends', _⟩
      · rw [Server.receive_of_unpack hunpack, heq]
        exact not_reported_leave ((Server.isRunning_unpacked s data p).trans hrunning)
      · rw [hends] at hends'
        cases hends'

theorem sendPacket_failed (sender : Sender) {m : Message} {i1 : UInt32}
    (hreaches : s.reachesConnection m i1 = true) :
    (s.sendPacket sender m i1 false).log.any isDeath = true ∧
      (s.sendPacket sender m i1 false).isRunning = true := by
  obtain ⟨p, _, hlog⟩ := Server.sendPacket_log_of_reaches sender false hreaches
  rw [Server.reachesConnection, Bool.and_eq_true] at hreaches
  exact ⟨by simp [hlog, isDeath, isSendFailure], by rw [Server.sendPacket_isRunning, hreaches.1]⟩

theorem not_failsSend_of_reported (h : Reported s') (hstep : step given s l = some s') :
    failsSend s l = false := by
  rw [← Bool.not_eq_true]
  intro hfails
  cases move_of_step hstep with
  | @send sender m i1 ok hmain =>
      cases ok with
      | true => cases hfails
      | false =>
          simp only [failsSend, hmain] at hfails
          obtain ⟨hdeath, hrunning⟩ := sendPacket_failed sender hfails
          exact absurd (h.notRunning hdeath) (by simpa using hrunning)
  | @threadSend i m i1 ok hthread =>
      cases ok with
      | true => cases hfails
      | false =>
          simp only [failsSend, hthread] at hfails
          obtain ⟨hdeath, hrunning⟩ := sendPacket_failed .thread hfails
          exact absurd (h.notRunning hdeath) (by simpa using hrunning)
  | _ => cases hfails

theorem not_running_of_reported (h : Reported s') (hstep : step given s l = some s')
    (hends : endsLoop given l = true) : s.isRunning = false := by
  rw [← Bool.not_eq_true]
  intro hrunning
  cases move_of_step hstep with
  | receive => exact not_reported_receive hends hrunning h
  | recvError => exact not_reported_leave hrunning h
  | raise => exact not_reported_leave hrunning h
  | _ => cases hends

/-- A failed send and a way out of the loop leave the flag as it was. -/
theorem orderly_of_reported (h : Reported s') (hstep : step given s l = some s') :
    Orderly given s l :=
  ⟨not_failsSend_of_reported h hstep, not_running_of_reported h hstep⟩

end Disorderly

/-! ## The contract -/

/-- A dead link is reported in every state of a run if and only if no send of the
run fails and its loop ends only after the server has been stopped. -/
theorem reported_iff_orderly {given : Callback → Bool} {ls : List Label} {s : Server}
    (h : Run (Fires (step given)) {} ls s) :
    (∀ ls' s', ls' <+: ls → Run (Fires (step given)) {} ls' s' → Reported s') ↔
      Run (FiresWhen (Orderly given) (step given)) {} ls s :=
  h.forall_prefix_iff alive_init (fun _ _ _ => alive_step) (fun _ => Alive.reported)
    fun _ _ _ _ hstep hreported => orderly_of_reported hreported hstep

def noCallback (_ : Callback) : Bool := false

/-- The emulator has connected, and its status packet is answered; `ok` is whether
that send succeeds. -/
def statusAnswered (ok : Bool) : List Label :=
  [.accept, .send true, .check, .recv (Packet.bytes ⟨108, 1, 0, 0, 100⟩), .send ok, .check]

/-- The emulator's next status packet is answered. -/
def answeredAgain : List Label := [.recv (Packet.bytes ⟨108, 1, 0, 0, 200⟩), .send true, .check]

/-- The server is stopped and leaves its loop. -/
theorem reported_iff_orderly_stopped :
    ∃ s, Run (Fires (step noCallback)) {} (statusAnswered true ++ .stop :: answeredAgain) s ∧
      .left ∈ s.log ∧ Reported s := by
  have hrun : (exec (guarded (Orderly noCallback) (step noCallback)) {}
      (statusAnswered true ++ .stop :: answeredAgain)).any
      (fun s => decide (.left ∈ s.log)) = true := by
    decide
  obtain ⟨s, hguarded, hleft⟩ := exists_run_of_exec hrun
  have horderly := hguarded.mono fun _ _ _ hfire => guarded_fires hfire
  have hfires := horderly.mono fun _ _ _ hfire => hfire.2
  have hreported := (reported_iff_orderly hfires).mpr horderly _ s List.prefix_rfl hfires
  exact ⟨s, hfires, of_decide_eq_true hleft, hreported⟩

/-- A send fails, and the next packet is dispatched nevertheless; and the emulator
disconnects, and the server still says it is running. -/
theorem dead_link_not_reported :
    (∃ s, Reachable (Fires (step noCallback)) {} s ∧ s.log.any isSendFailure = true ∧
      s.isRunning = true ∧ ¬ Always DispatchedAlive s.log) ∧
    ∃ s, Reachable (Fires (step noCallback)) {} s ∧ .left ∈ s.log ∧ s.isRunning = true := by
  have hfailed : (exec (step noCallback) {} (statusAnswered false ++ answeredAgain)).any
      (fun s => s.log.any isSendFailure && s.isRunning &&
        decide (¬ Always DispatchedAlive s.log)) = true := by
    decide
  have hdropped : (exec (step noCallback) {} (statusAnswered true ++ [.recv []])).any
      (fun s => decide (.left ∈ s.log) && s.isRunning) = true := by
    decide
  obtain ⟨s₁, hs₁, h₁⟩ := exists_reachable_of_exec hfailed
  obtain ⟨s₂, hs₂, h₂⟩ := exists_reachable_of_exec hdropped
  simp only [Bool.and_eq_true, decide_eq_true_eq] at h₁ h₂
  exact ⟨⟨s₁, hs₁, h₁.1.1, h₁.1.2, h₁.2⟩, s₂, hs₂, h₂⟩

end GbPlay.Tools.Bgb.Running
