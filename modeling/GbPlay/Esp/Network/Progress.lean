import GbPlay.Esp.Network.EventLoop
import GbPlay.Esp.Network.Lock

/-!
# The tasks go on

`wifi_connect` and `wifi_disconnect` wait without a timeout for the lock and, in
`_disconnect`, for an event.  No task waits for the lock while nobody can give it, and none
waits for an event that has already been handled.
-/

namespace GbPlay.Esp.Network.Progress

open GbPlay.Library GbPlay.Library.Runs
open GbPlay.Esp.SavedNetworks
open GbPlay.Esp.Network.History
open GbPlay.Esp.Network.Model
open GbPlay.Esp.Network.Moves
open GbPlay.Esp.Network.Lock
open GbPlay.Esp.Network.EventLoop

def stepOf : Task → Answer → Label
  | .manager => .manager
  | .console => .console

def byTask : Task → Label → Bool
  | .manager, .manager _ => true
  | .console, .console _ => true
  | _, _ => false

/-- The task can take a step. -/
def GoesOn (w : World) (task : Task) : Prop := ∃ answer, (step w (stepOf task answer)).isSome = true

def waitsBits : Connect → Bool
  | .disconnect _ .waitBits => true
  | _ => false

/-- The task is in `xEventGroupWaitBits` in `_disconnect`. -/
def awaitsDisconnect (w : World) : Task → Bool
  | .manager =>
      match w.manager with
      | .connecting _ _ _ pc => waitsBits pc
      | _ => false
  | .console =>
      match w.console with
      | .connecting _ _ _ pc => waitsBits pc
      | .disconnecting (.disconnect .waitBits) => true
      | _ => false

/-- DROPPED or LEFT is set. -/
def answered (bits : EventBits) : Bool := bits.dropped || bits.left

/-- The next step of the event loop sets DROPPED or LEFT. -/
def Answering (w : World) : Prop :=
  ∃ event, w.handler = .setBits event ∧ event.id ≠ .connected

/-- `_on_disconnect` of `wifi.c` reports DROPPED or LEFT. -/
def Consistent (w : World) : Prop :=
  ∀ event, w.handler = .onDisconnect event → event.id ≠ .connected

/-- The driver has yet to report that it has disconnected, or it has. -/
def Awaited (w : World) : Prop :=
  w.wifi.isConnected = true ∨ answered w.wifi.bits = true ∨ Answering w

structure Inv (w : World) : Prop where
  locked : Locked w
  owned : (mutex w.wifi).Owned (holdsLock w)
  consistent : Consistent w
  awaited : ∀ task, awaitsDisconnect w task = true → Awaited w

variable {w w' : World}

/-! ## The lock -/

/-- The manager steps outside of `wifi_connect` and `wifi_scan`. -/
structure Outside (w w' : World) : Prop where
  console : w'.console = w.console
  wifi : w'.wifi = w.wifi
  before : Manager.holdsLock w.manager = false
  after : Manager.holdsLock w'.manager = false

theorem outside_handleBits {bits : EventBits} (h : w.manager = .woken bits) :
    Outside w (handleBits w bits) := by
  have hout : Manager.holdsLock w.manager = false := by rw [h]; rfl
  unfold handleBits
  split
  · split <;> exact ⟨rfl, rfl, hout, rfl⟩
  · split
    · exact ⟨rfl, rfl, hout, rfl⟩
    · split <;> exact ⟨rfl, rfl, hout, rfl⟩

theorem outside_comparePrev {i : Nat} (h : w.manager = .ensureNetworkInfo i) :
    Outside w (comparePrev w i) := by
  have hout : Manager.holdsLock w.manager = false := by rw [h]; rfl
  unfold comparePrev
  split
  · split <;> exact ⟨rfl, rfl, hout, rfl⟩
  · exact ⟨rfl, rfl, hout, rfl⟩

theorem outside_tryConnect {creds : WifiNetworkCredentials} {next : Next}
    (h : w.manager = .tryConnect creds next) : Outside w (tryConnect w creds next) := by
  have hout : Manager.holdsLock w.manager = false := by rw [h]; rfl
  have hcalled : Connect.holdsLock (wifiConnect creds.ssid.str creds.pass.str) = false := by
    unfold wifiConnect
    split <;> rfl
  unfold tryConnect
  dsimp only
  split
  · exact ⟨rfl, rfl, hout, holdsLock_next next⟩
  · exact ⟨rfl, rfl, hout, hcalled⟩

theorem holdsLock_compareSaved (w : World) (savedNetworks : WifiSavedNetworkInfo) (i : Nat) :
    Manager.holdsLock (compareSaved w savedNetworks i) = false := by
  unfold compareSaved
  split
  · split <;> rfl
  · rfl

/-- What a step does to the lock is done by one task. -/
def OneUses (w w' : World) : Prop := ∃ task,
  Mutex.Use task (mutex w.wifi) (holdsLock w task) (mutex w'.wifi) (holdsLock w' task) ∧
    ∀ t, t ≠ task → holdsLock w' t = holdsLock w t

theorem oneUses_manager (hconsole : w'.console = w.console)
    (huse : Mutex.Use .manager (mutex w.wifi) (Manager.holdsLock w.manager) (mutex w'.wifi)
      (Manager.holdsLock w'.manager)) : OneUses w w' := by
  refine ⟨.manager, huse, fun t ht => ?_⟩
  cases t with
  | manager => exact absurd rfl ht
  | console => exact congrArg Console.holdsLock hconsole

theorem Outside.oneUses (h : Outside w w') : OneUses w w' := by
  refine oneUses_manager h.console ?_
  rw [h.wifi, h.before, h.after]
  exact .rest false

theorem oneUses_of_move {l : Label} (h : Move w l w') : OneUses w w' := by
  cases h with
  | aside haside =>
      refine ⟨.console, haside.lock, fun t ht => ?_⟩
      cases t with
      | manager => exact congrArg Manager.holdsLock haside.manager
      | console => exact absurd rfl ht
  | announce => exact oneUses_manager rfl (.rest _)
  | deliver => exact oneUses_manager rfl (.rest _)
  | wake hm => exact Outside.oneUses ⟨rfl, rfl, by rw [hm]; rfl, rfl⟩
  | handleBits hm => exact (outside_handleBits hm).oneUses
  | roam wifi _ _ hlock => exact oneUses_manager rfl hlock
  | tryConnect hm => exact (outside_tryConnect hm).oneUses
  | connect hm hstep =>
      refine oneUses_manager rfl ?_
      rw [hm]
      exact connectStep_use hstep
  | connected hm => exact Outside.oneUses ⟨rfl, rfl, by rw [hm]; rfl, rfl⟩
  | failed hm => exact Outside.oneUses ⟨rfl, rfl, by rw [hm]; rfl, holdsLock_next _⟩
  | comparePrev hm hcompares =>
      have hout : Manager.holdsLock w.manager = false := by rw [hm]; rfl
      cases hcompares <;> exact Outside.oneUses ⟨rfl, rfl, hout, rfl⟩
  | blockLeft hm => exact Outside.oneUses ⟨rfl, rfl, by rw [hm]; rfl, rfl⟩

theorem holdsLock_of_awaits {task : Task} (h : awaitsDisconnect w task = true) :
    holdsLock w task = true := by
  have hconnect {pc : Connect} (hpc : waitsBits pc = true) : Connect.holdsLock pc = true := by
    cases pc <;> first | rfl | cases hpc
  cases task with
  | manager =>
      cases hm : w.manager with
      | connecting info creds next pc =>
          simp only [awaitsDisconnect, hm] at h
          simpa [holdsLock, hm, Manager.holdsLock] using hconnect h
      | _ => simp [awaitsDisconnect, hm] at h
  | console =>
      cases hc : w.console with
      | connecting ssid password save pc =>
          simp only [awaitsDisconnect, hc] at h
          simpa [holdsLock, hc, Console.holdsLock] using hconnect h
      | disconnecting pc =>
          cases pc <;> simp_all [awaitsDisconnect, holdsLock, Console.holdsLock]
      | idle => simp [awaitsDisconnect, hc] at h

/-! ## The bits -/

section Bits

variable {task : Task} {force : Bool} {cfg : StaConfig} {answer : Answer} {s s' : Wifi}
  {actions : List Action}

/-- `_disconnect` waits only when it has seen a network connected. -/
theorem connected_of_waits {pc : Disconnect}
    (h : disconnectStep s pc = some (s', some .waitBits)) : s'.isConnected = true := by
  cases pc with
  | clearBits => cases h
  | test =>
      simp only [disconnectStep] at h
      split at h <;> cases h
      assumption
  | waitBits =>
      simp only [disconnectStep] at h
      split at h <;> cases h

theorem connected_of_waitsBits {pc pc' : Connect}
    (h : connectStep task force cfg answer s pc = some (s', actions, pc'))
    (hwaits : waitsBits pc' = true) : s'.isConnected = true := by
  have hnext (i : Nat) : waitsBits (nextAttempt i) = false := by
    unfold nextAttempt
    split <;> rfl
  cases pc with
  | disconnect i pc =>
      simp only [connectStep] at h
      split at h
      · rename_i next hstep
        cases h
        cases next with
        | waitBits => exact connected_of_waits hstep
        | _ => cases hwaits
      · cases h
        cases hwaits
      · cases h
  | waitBits i =>
      simp only [connectStep] at h
      split at h
      · cases h
        split at hwaits
        · cases hwaits
        · rw [hnext] at hwaits
          cases hwaits
      · split at h <;> cases h
        rw [hnext] at hwaits
        cases hwaits
  | takeLock =>
      simp only [connectStep] at h
      split at h <;> cases h
      cases hwaits
  | check =>
      simp only [connectStep] at h
      split at h <;> cases h <;> cases hwaits
  | start i =>
      simp only [connectStep] at h
      split at h <;> cases h <;> cases hwaits
  | clearBits i =>
      cases h
      cases hwaits
  | giveLock didConnect =>
      cases h
      cases hwaits
  | returned didConnect => cases h

/-- Without the lock `wifi_connect` leaves the bits alone. -/
theorem connectStep_bits {pc pc' : Connect}
    (h : connectStep task force cfg answer s pc = some (s', actions, pc'))
    (hout : Connect.holdsLock pc = false) : s'.bits = s.bits := by
  cases pc with
  | takeLock =>
      simp only [connectStep] at h
      split at h <;> cases h
      rfl
  | returned didConnect => cases h
  | _ => cases hout

end Bits

/-- A step of the task: without the lock it leaves the bits alone, it begins to wait in
`_disconnect` only when a network is connected, and the other task stays where it is. -/
structure Respects (task : Task) (w w' : World) : Prop where
  bits : holdsLock w task = false → w'.wifi.bits = w.wifi.bits
  awaits : awaitsDisconnect w' task = true → w'.wifi.isConnected = true
  others : ∀ t, t ≠ task → awaitsDisconnect w' t = awaitsDisconnect w t

theorem respects_manager (hconsole : w'.console = w.console)
    (hbits : Manager.holdsLock w.manager = false → w'.wifi.bits = w.wifi.bits)
    (hawaits : awaitsDisconnect w' .manager = true → w'.wifi.isConnected = true) :
    Respects .manager w w' := by
  refine ⟨hbits, hawaits, fun t ht => ?_⟩
  cases t with
  | manager => exact absurd rfl ht
  | console => rw [awaitsDisconnect, awaitsDisconnect, hconsole]

theorem respects_console (hmanager : w'.manager = w.manager)
    (hbits : Console.holdsLock w.console = false → w'.wifi.bits = w.wifi.bits)
    (hawaits : awaitsDisconnect w' .console = true → w'.wifi.isConnected = true) :
    Respects .console w w' := by
  refine ⟨hbits, hawaits, fun t ht => ?_⟩
  cases t with
  | manager => rw [awaitsDisconnect, awaitsDisconnect, hmanager]
  | console => exact absurd rfl ht

theorem Outside.respects (h : Outside w w') : Respects .manager w w' := by
  refine respects_manager h.console (fun _ => by rw [h.wifi]) fun hawaits => ?_
  have hin : Manager.holdsLock w'.manager = true := holdsLock_of_awaits hawaits
  rw [h.after] at hin
  cases hin

theorem managerStep_respects {answer : Answer} (h : managerStep w answer = some w') :
    Respects .manager w w' := by
  unfold managerStep at h
  split at h
  · split at h <;> cases h
    exact respects_manager rfl (fun _ => rfl) nofun
  · rename_i bits hm
    cases h
    exact (outside_handleBits hm).respects
  · cases h
    refine respects_manager rfl (fun _ => rfl) fun hawaits => ?_
    cases hconnected : w.wifi.isConnected with
    | true => exact hconnected
    | false =>
        rw [hconnected] at hawaits
        cases hawaits
  · cases h
    exact respects_manager rfl (fun _ => rfl) nofun
  · rename_i savedNetworks i hm
    cases h
    have hout : Manager.holdsLock w.manager = false := by rw [hm]; rfl
    exact Outside.respects ⟨rfl, rfl, hout, holdsLock_compareSaved w savedNetworks i⟩
  · rename_i creds next hm
    cases h
    exact (outside_tryConnect hm).respects
  · cases h
    exact respects_manager rfl (fun _ => rfl) nofun
  · rename_i info creds next hm
    cases h
    have hout : Manager.holdsLock w.manager = false := by rw [hm]; rfl
    exact Outside.respects ⟨rfl, rfl, hout, holdsLock_next next⟩
  · rename_i info creds next pc _ _ hm
    split at h
    · rename_i hstep
      cases h
      refine respects_manager rfl (fun hout => connectStep_bits hstep ?_) fun hawaits => ?_
      · rwa [hm] at hout
      · exact connected_of_waitsBits hstep hawaits
    · cases h
  · split at h <;> cases h
    exact respects_manager rfl (fun _ => rfl) nofun
  · split at h
    · split at h <;> cases h
      exact respects_manager rfl (fun _ => rfl) nofun
    · cases h
  · cases h
    exact respects_manager rfl (fun _ => rfl) nofun
  · split at h <;> cases h <;> exact respects_manager rfl (fun _ => rfl) nofun
  · split at h <;> cases h
    exact respects_manager rfl (fun _ => rfl) nofun
  · rename_i i hm
    cases h
    exact (outside_comparePrev hm).respects
  · cases h
    exact respects_manager rfl (fun _ => rfl) nofun

theorem consoleStep_respects {answer : Answer} (h : consoleStep w answer = some w') :
    Respects .console w w' := by
  unfold consoleStep at h
  split at h
  · cases h
  · split at h <;> cases h <;> exact respects_console rfl (fun _ => rfl) nofun
  · rename_i ssid password save pc _ hc
    split at h
    · rename_i hstep
      cases h
      refine respects_console rfl (fun hout => connectStep_bits hstep ?_) fun hawaits => ?_
      · rwa [hc] at hout
      · exact connected_of_waitsBits hstep hawaits
    · cases h
  · split at h <;> cases h
    exact respects_console rfl (fun _ => rfl) nofun
  · rename_i pc hc
    have hin : Console.holdsLock w.console = true := by rw [hc]; rfl
    split at h
    · rename_i wifi next hstep
      cases h
      refine respects_console rfl (fun hout => ?_) fun hawaits => ?_
      · rw [hin] at hout
        cases hout
      · cases next with
        | waitBits => exact connected_of_waits hstep
        | _ => cases hawaits
    · cases h
      refine respects_console rfl (fun hout => ?_) nofun
      rw [hin] at hout
      cases hout
    · cases h
  · cases h
    exact respects_console rfl (fun _ => rfl) nofun

theorem command_respects {c : Command} (h : command w c = some w') : Respects .console w w' := by
  unfold command at h
  split at h
  · cases c with
    | connect ssid password save =>
        cases h
        refine respects_console rfl (fun _ => rfl) fun hawaits => ?_
        unfold awaitsDisconnect wifiConnect at hawaits
        dsimp only at hawaits
        split at hawaits <;> cases hawaits
    | disconnect =>
        cases h
        exact respects_console rfl (fun _ => rfl) nofun
    | forget ssid =>
        rename_i hc
        cases h
        refine respects_console rfl (fun _ => rfl) fun hawaits => ?_
        simp [awaitsDisconnect, hc] at hawaits
  · cases h

/-! ## The event loop -/

theorem handlerOf_onDisconnect {event : Event} {e : NetworkEvent}
    (h : handlerOf event = .onDisconnect e) : e.id ≠ .connected := by
  unfold handlerOf at h
  split at h
  · cases h
    nofun
  · cases h
    nofun
  · cases h
  · split at h <;> cases h

theorem consistent_dispatch (hstep : dispatch w = some w') : Consistent w' := by
  unfold Model.dispatch at hstep
  split at hstep
  · cases hstep
    exact fun e he => handlerOf_onDisconnect he
  · cases hstep

/-- No handler is followed by `_on_disconnect`. -/
theorem consistent_handler {ap : Option Ssid} (hstep : handlerStep w ap = some w') :
    Consistent w' := by
  intro e he
  cases hhandler : w.handler with
  | idle => simp [handlerStep, hhandler] at hstep
  | onGotIp =>
      simp only [handlerStep, hhandler] at hstep
      split at hstep <;> cases hstep <;> cases he
  | _ =>
      simp only [handlerStep, hhandler, Option.some.injEq] at hstep
      subst hstep
      cases he

theorem answered_set (bits : EventBits) (id : NetworkEventId)
    (h : answered bits = true ∨ id ≠ .connected) : answered (bits.set id) = true := by
  cases id with
  | connected => exact h.resolve_right (fun hne => hne rfl)
  | dropped => simp [answered, EventBits.set]
  | left => simp [answered, EventBits.set]

/-- An answer that has been given stays, and the one on its way is given. -/
theorem answer_handler {ap : Option Ssid} (hstep : handlerStep w ap = some w')
    (h : answered w.wifi.bits = true ∨ Answering w) : answered w'.wifi.bits = true := by
  have hset (hother : ∀ e, w.handler ≠ .setBits e) : answered w.wifi.bits = true := by
    refine h.resolve_right ?_
    rintro ⟨e, he, _⟩
    exact hother e he
  cases hhandler : w.handler with
  | idle => simp [handlerStep, hhandler] at hstep
  | setBits event =>
      simp only [handlerStep, hhandler, Option.some.injEq] at hstep
      subst hstep
      refine answered_set _ _ (h.imp_right ?_)
      rintro ⟨e, he, hid⟩
      rw [hhandler] at he
      cases he
      exact hid
  | onGotIp =>
      have hbits := hset fun e he => by
        rw [hhandler] at he
        cases he
      simp only [handlerStep, hhandler] at hstep
      split at hstep <;> cases hstep <;> exact hbits
  | _ =>
      have hbits := hset fun e he => by
        rw [hhandler] at he
        cases he
      simp only [handlerStep, hhandler, Option.some.injEq] at hstep
      subst hstep
      exact hbits

theorem awaited_handler (h : Awaited w) (hconsistent : Consistent w) {ap : Option Ssid}
    (hstep : handlerStep w ap = some w') : Awaited w' := by
  rcases h with hconnected | hanswer
  · cases hhandler : w.handler with
    | idle => simp [handlerStep, hhandler] at hstep
    | onDisconnect event =>
        simp only [handlerStep, hhandler, Option.some.injEq] at hstep
        subst hstep
        exact .inr (.inr ⟨event, rfl, hconsistent event hhandler⟩)
    | onConnect event =>
        simp only [handlerStep, hhandler, Option.some.injEq] at hstep
        subst hstep
        exact .inl rfl
    | onGotIp =>
        simp only [handlerStep, hhandler] at hstep
        split at hstep <;> cases hstep <;> exact .inl hconnected
    | _ =>
        simp only [handlerStep, hhandler, Option.some.injEq] at hstep
        subst hstep
        exact .inl hconnected
  · exact .inr (.inl (answer_handler hstep hanswer))

/-- No handler is running when the loop takes an event. -/
theorem not_answering_of_dispatch (hstep : dispatch w = some w') : ¬ Answering w := by
  rintro ⟨e, he, _⟩
  simp [Model.dispatch, he] at hstep

theorem awaited_loop (h : Awaited w) (hconsistent : Consistent w) {l : Label}
    (hstep : step w l = some w') (hloop : isLoop l = true) : Awaited w' := by
  cases l with
  | dispatch =>
      have hwifi : w'.wifi = w.wifi := by
        simp only [step, Model.dispatch] at hstep
        split at hstep <;> cases hstep
        rfl
      unfold Awaited at *
      rw [hwifi]
      rcases h with hconnected | hset | hanswering
      · exact .inl hconnected
      · exact .inr (.inl hset)
      · exact absurd hanswering (not_answering_of_dispatch hstep)
  | handler ap => exact awaited_handler h hconsistent hstep
  | _ => cases hloop

/-! ## Every run -/

theorem loop_same {l : Label} (hstep : step w l = some w') (hloop : isLoop l = true) :
    w'.manager = w.manager ∧ w'.console = w.console := by
  cases l with
  | dispatch =>
      simp only [step, Model.dispatch] at hstep
      split at hstep <;> cases hstep
      exact ⟨rfl, rfl⟩
  | handler ap =>
      simp only [step, handlerStep] at hstep
      split at hstep
      case h_1 => cases hstep
      case h_3 => split at hstep <;> cases hstep <;> exact ⟨rfl, rfl⟩
      all_goals
        cases hstep
        exact ⟨rfl, rfl⟩
  | _ => cases hloop

theorem awaitsDisconnect_same (hmanager : w'.manager = w.manager)
    (hconsole : w'.console = w.console) (task : Task) :
    awaitsDisconnect w' task = awaitsDisconnect w task := by
  cases task with
  | manager => rw [awaitsDisconnect, awaitsDisconnect, hmanager]
  | console => rw [awaitsDisconnect, awaitsDisconnect, hconsole]

/-- A step of one task, as another one sees it that waits in `_disconnect`. -/
theorem bits_of_respects (hlocked : Locked w) {task t : Task} (h : Respects task w w')
    (ht : t ≠ task) (hawaits : awaitsDisconnect w t = true) : w'.wifi.bits = w.wifi.bits :=
  h.bits (hlocked.held.not_held (holdsLock_of_awaits hawaits) ht.symm)

theorem Inv.awaited_task (h : Inv w) {task t : Task} (hrespects : Respects task w w')
    (hsame : Undisturbed w w') (hawaits : awaitsDisconnect w' t = true) : Awaited w' := by
  by_cases ht : t = task
  · subst ht
    exact .inl (hrespects.awaits hawaits)
  · rw [hrespects.others t ht] at hawaits
    have hbefore := h.awaited t hawaits
    have hbits := bits_of_respects h.locked hrespects ht hawaits
    unfold Awaited Answering at *
    rwa [hsame.isConnected, hbits, hsame.handler]

theorem Inv.step {l : Label} (h : Inv w) (hstep : Model.step w l = some w') : Inv w' := by
  obtain ⟨task, huse, hothers⟩ := oneUses_of_move (step_move hstep)
  have hconsistent : Consistent w' := by
    cases hloop : isLoop l with
    | true =>
        cases l with
        | dispatch => exact consistent_dispatch hstep
        | handler ap => exact consistent_handler hstep
        | _ => cases hloop
    | false =>
        intro event he
        rw [(connection_of_other hstep hloop).2] at he
        exact h.consistent event he
  refine ⟨locked_step h.locked (step_move hstep), h.owned.use huse hothers, hconsistent, ?_⟩
  intro t hawaits
  cases l with
  | tick d =>
      cases hstep
      exact h.awaited t hawaits
  | driver event =>
      cases hstep
      exact h.awaited t hawaits
  | dispatch =>
      obtain ⟨hmanager, hconsole⟩ := loop_same hstep rfl
      rw [awaitsDisconnect_same hmanager hconsole] at hawaits
      exact awaited_loop (h.awaited t hawaits) h.consistent hstep rfl
  | handler ap =>
      obtain ⟨hmanager, hconsole⟩ := loop_same hstep rfl
      rw [awaitsDisconnect_same hmanager hconsole] at hawaits
      exact awaited_loop (h.awaited t hawaits) h.consistent hstep rfl
  | manager answer =>
      exact h.awaited_task (managerStep_respects hstep) (managerStep_undisturbed hstep) hawaits
  | console answer =>
      exact h.awaited_task (consoleStep_respects hstep) (consoleStep_undisturbed hstep) hawaits
  | command c =>
      exact h.awaited_task (command_respects hstep) (command_undisturbed hstep) hawaits

theorem inv_start (savedNetworks : WifiSavedNetworkInfo) : Inv (start savedNetworks) := by
  refine ⟨locked_start savedNetworks, nofun, nofun, fun task hawaits => ?_⟩
  cases task <;> cases hawaits

theorem inv_reachable {savedNetworks : WifiSavedNetworkInfo}
    (h : Reachable (Fires step) (start savedNetworks) w) : Inv w :=
  h.invariant (inv_start savedNetworks) fun _ _ _ hinv hstep => hinv.step hstep

/-! ## Who goes on -/

/-- The task has nothing to do: the manager waits for an event or for the time of the next scan,
the console for a command. -/
def Rests (w : World) : Task → Prop
  | .manager => w.manager = .waiting ∨ ∃ wakeAt, w.manager = .sleeping wakeAt
  | .console => w.console = .idle

theorem connect_goesOn {task : Task} {force : Bool} {cfg : StaConfig} (s : Wifi) {pc : Connect}
    (hin : Connect.holdsLock pc = true) : waitsBits pc = true ∨
      ∃ answer, (connectStep task force cfg answer s pc).isSome = true := by
  cases pc with
  | takeLock => cases hin
  | returned didConnect => cases hin
  | disconnect i pc =>
      cases pc with
      | clearBits => exact .inr ⟨.proceed, rfl⟩
      | test =>
          right
          cases hconnected : s.isConnected <;>
            exact ⟨.proceed, by simp [connectStep, disconnectStep, hconnected]⟩
      | waitBits => exact .inl rfl
  | waitBits i =>
      right
      cases hany : s.bits.any <;> exact ⟨.timedOut, by simp [connectStep, hany]⟩
  | check =>
      right
      refine ⟨.proceed, ?_⟩
      simp only [connectStep]
      split <;> rfl
  | _ => exact .inr ⟨.proceed, rfl⟩

theorem manager_goesOn {info : Fin networkHistorySize} {creds : WifiNetworkCredentials}
    {next : Next} {pc : Connect} {answer : Answer} (hm : w.manager = .connecting info creds next pc)
    (hstep : (connectStep .manager false (.cfg creds.ssid.str creds.pass.str) answer w.wifi
      pc).isSome = true) : GoesOn w .manager := by
  obtain ⟨⟨wifi, actions, pc'⟩, hr⟩ := Option.isSome_iff_exists.mp hstep
  refine ⟨answer, ?_⟩
  cases pc with
  | returned didConnect => cases hr
  | _ => simp [stepOf, step, managerStep, hm, hr]

theorem console_goesOn {ssid password : CString} {save : Bool} {pc : Connect} {answer : Answer}
    (hc : w.console = .connecting ssid password save pc)
    (hstep : (connectStep .console true (.cfg ssid password) answer w.wifi pc).isSome = true) :
    GoesOn w .console := by
  obtain ⟨⟨wifi, actions, pc'⟩, hr⟩ := Option.isSome_iff_exists.mp hstep
  refine ⟨answer, ?_⟩
  cases pc with
  | returned didConnect => cases hr
  | _ => simp [stepOf, step, consoleStep, hc, hr]

/-- The holder of the lock goes on, unless it is in `_disconnect`. -/
theorem goesOn_of_holds {task : Task} (h : holdsLock w task = true) :
    GoesOn w task ∨ awaitsDisconnect w task = true := by
  cases task with
  | manager =>
      cases hm : w.manager with
      | connecting info creds next pc =>
          rw [holdsLock, hm] at h
          rcases connect_goesOn w.wifi h with hwaits | ⟨answer, hstep⟩
          · exact .inr (by simpa [awaitsDisconnect, hm] using hwaits)
          · exact .inl (manager_goesOn hm hstep)
      | scanning => exact .inl ⟨.scanned [], by simp [stepOf, step, managerStep, hm]⟩
      | _ => simp [holdsLock, hm, Manager.holdsLock] at h
  | console =>
      cases hc : w.console with
      | connecting ssid password save pc =>
          rw [holdsLock, hc] at h
          rcases connect_goesOn w.wifi h with hwaits | ⟨answer, hstep⟩
          · exact .inr (by simpa [awaitsDisconnect, hc] using hwaits)
          · exact .inl (console_goesOn hc hstep)
      | disconnecting pc =>
          cases pc with
          | takeLock => simp [holdsLock, hc, Console.holdsLock] at h
          | giveLock => exact .inl ⟨.proceed, by simp [stepOf, step, consoleStep, hc]⟩
          | disconnect pc =>
              cases pc with
              | clearBits =>
                  exact .inl ⟨.proceed, by simp [stepOf, step, consoleStep, hc, disconnectStep]⟩
              | test =>
                  refine .inl ⟨.proceed, ?_⟩
                  cases hconnected : w.wifi.isConnected <;>
                    simp [stepOf, step, consoleStep, hc, disconnectStep, hconnected]
              | waitBits => exact .inr (by simp [awaitsDisconnect, hc])
      | idle => simp [holdsLock, hc, Console.holdsLock] at h

/-- A task that cannot go on outside of the lock rests or waits for the lock. -/
theorem goesOn_of_not_holds {task : Task} (h : holdsLock w task = false) :
    Rests w task ∨ GoesOn w task ∨ ∃ holder, w.wifi.lock = some holder := by
  have hlock (hgoes : w.wifi.lock = none → GoesOn w task) :
      GoesOn w task ∨ ∃ holder, w.wifi.lock = some holder := by
    cases hfree : w.wifi.lock with
    | none => exact .inl (hgoes hfree)
    | some holder => exact .inr ⟨holder, rfl⟩
  cases task with
  | manager =>
      cases hm : w.manager with
      | waiting => exact .inl (.inl hm)
      | sleeping wakeAt => exact .inl (.inr ⟨wakeAt, hm⟩)
      | woken bits => exact .inr (.inl ⟨.proceed, by simp [stepOf, step, managerStep, hm]⟩)
      | reconnect => exact .inr (.inl ⟨.proceed, by simp [stepOf, step, managerStep, hm]⟩)
      | tryConnect creds next =>
          exact .inr (.inl ⟨.proceed, by simp [stepOf, step, managerStep, hm]⟩)
      | tryConnectPrev => exact .inr (.inl ⟨.proceed, by simp [stepOf, step, managerStep, hm]⟩)
      | getSavedNetwork savedNetworks i =>
          exact .inr (.inl ⟨.proceed, by simp [stepOf, step, managerStep, hm]⟩)
      | ensureNetworkInfo i =>
          exact .inr (.inl ⟨.proceed, by simp [stepOf, step, managerStep, hm]⟩)
      | blockNetwork info =>
          exact .inr (.inl ⟨.proceed, by simp [stepOf, step, managerStep, hm]⟩)
      | tryAutoconnect aps =>
          refine .inr (.inl ⟨.proceed, ?_⟩)
          cases aps with
          | nil => simp [stepOf, step, managerStep, hm]
          | cons ap rest =>
              cases hlookup : lookup w ap.name <;>
                simp [stepOf, step, managerStep, hm, hlookup]
      | scan =>
          exact .inr (hlock fun hfree => ⟨.proceed, by simp [stepOf, step, managerStep, hm, hfree]⟩)
      | scanning => simp [holdsLock, hm, Manager.holdsLock] at h
      | connecting info creds next pc =>
          cases pc with
          | takeLock =>
              refine .inr (hlock fun hfree => ?_)
              have htakes : (connectStep .manager false (.cfg creds.ssid.str creds.pass.str)
                  .proceed w.wifi .takeLock).isSome = true := by simp [connectStep, hfree]
              exact manager_goesOn hm htakes
          | returned didConnect =>
              refine .inr (.inl ⟨.proceed, ?_⟩)
              cases didConnect <;> simp [stepOf, step, managerStep, hm]
          | _ => simp [holdsLock, hm, Manager.holdsLock, Connect.holdsLock] at h
  | console =>
      cases hc : w.console with
      | idle => exact .inl hc
      | connecting ssid password save pc =>
          cases pc with
          | takeLock =>
              refine .inr (hlock fun hfree => ?_)
              have htakes : (connectStep .console true (.cfg ssid password) .proceed w.wifi
                  .takeLock).isSome = true := by simp [connectStep, hfree]
              exact console_goesOn hc htakes
          | returned didConnect =>
              refine .inr (.inl ⟨.proceed, ?_⟩)
              cases didConnect <;> cases save <;> simp [stepOf, step, consoleStep, hc]
          | _ => simp [holdsLock, hc, Console.holdsLock, Connect.holdsLock] at h
      | disconnecting pc =>
          cases pc with
          | takeLock =>
              refine .inr (hlock fun hfree => ⟨.proceed, ?_⟩)
              simp [stepOf, step, consoleStep, hc, hfree]
          | _ => simp [holdsLock, hc, Console.holdsLock] at h

theorem goesOn_of_answered {task : Task} (hawaits : awaitsDisconnect w task = true)
    (hbits : answered w.wifi.bits = true) : GoesOn w task := by
  have hwait (cfg : StaConfig) (force : Bool) (i : Nat) :
      (connectStep task force cfg .proceed w.wifi (.disconnect i .waitBits)).isSome = true := by
    rw [answered] at hbits
    simp [connectStep, disconnectStep, hbits]
  cases task with
  | manager =>
      cases hm : w.manager with
      | connecting info creds next pc =>
          cases pc with
          | disconnect i pc =>
              cases pc with
              | waitBits => exact manager_goesOn hm (hwait _ _ _)
              | _ => simp [awaitsDisconnect, hm, waitsBits] at hawaits
          | _ => simp [awaitsDisconnect, hm, waitsBits] at hawaits
      | _ => simp [awaitsDisconnect, hm] at hawaits
  | console =>
      cases hc : w.console with
      | connecting ssid password save pc =>
          cases pc with
          | disconnect i pc =>
              cases pc with
              | waitBits => exact console_goesOn hc (hwait _ _ _)
              | _ => simp [awaitsDisconnect, hc, waitsBits] at hawaits
          | _ => simp [awaitsDisconnect, hc, waitsBits] at hawaits
      | disconnecting pc =>
          cases pc with
          | disconnect pc =>
              cases pc with
              | waitBits =>
                  rw [answered] at hbits
                  exact ⟨.proceed, by simp [stepOf, step, consoleStep, hc, disconnectStep, hbits]⟩
              | _ => simp [awaitsDisconnect, hc] at hawaits
          | _ => simp [awaitsDisconnect, hc] at hawaits
      | idle => simp [awaitsDisconnect, hc] at hawaits

/-- The task can go on, or is in `_disconnect` and waits for the driver or for the step that the
event loop takes next. -/
def WillGoOn (w : World) (task : Task) : Prop :=
  GoesOn w task ∨ awaitsDisconnect w task = true ∧ (w.wifi.isConnected = true ∨ Answering w)

theorem Inv.holder (h : Inv w) {task : Task} (hholds : holdsLock w task = true) :
    WillGoOn w task := by
  rcases goesOn_of_holds hholds with hgoes | hawaits
  · exact .inl hgoes
  · rcases h.awaited task hawaits with hconnected | hbits | hanswering
    · exact .inr ⟨hawaits, .inl hconnected⟩
    · exact .inl (goesOn_of_answered hawaits hbits)
    · exact .inr ⟨hawaits, .inr hanswering⟩

/-- No deadlock: a task that does not rest will go on, or the one that holds the lock it waits
for will. -/
theorem tasks_go_on {savedNetworks : WifiSavedNetworkInfo}
    (h : Reachable (Fires step) (start savedNetworks) w) (task : Task) :
    Rests w task ∨ WillGoOn w task ∨ ∃ holder, holdsLock w holder = true ∧ WillGoOn w holder := by
  have hinv := inv_reachable h
  cases hholds : holdsLock w task with
  | true => exact .inr (.inl (hinv.holder hholds))
  | false =>
      rcases goesOn_of_not_holds hholds with hrests | hgoes | ⟨holder, hlock⟩
      · exact .inl hrests
      · exact .inr (.inl (.inl hgoes))
      · have hin : holdsLock w holder = true := hinv.owned holder hlock
        exact .inr (.inr ⟨holder, hin, hinv.holder hin⟩)

/-- The manager is about to scan, and the user, connected to one network, connects to another
one, of which the driver has just reported that the first is lost. -/
def switching : List Label :=
  byManager 6 ++ userConnects home ++ .command (.connect cafe.name cafe.name false) :: byUser 4 ++
    (lost home .other).take 3

theorem tasks_go_on_switching : ∃ w : World, holdsLock w .manager = false ∧
    awaitsDisconnect w .console = true ∧ w.wifi.isConnected = false ∧
      (Rests w .manager ∨ WillGoOn w .manager ∨
        ∃ holder, holdsLock w holder = true ∧ WillGoOn w holder) := by
  have hrun : (exec step (start (saved [home])) switching).any (fun w =>
      !holdsLock w .manager && awaitsDisconnect w .console && !w.wifi.isConnected) = true := by
    decide +kernel
  obtain ⟨w, hw, hp⟩ := exists_reachable_of_exec hrun
  simp only [Bool.and_eq_true, Bool.not_eq_true'] at hp
  exact ⟨w, hp.1.1, hp.1.2, hp.2, tasks_go_on hw .manager⟩

/-! ## A disconnect that has been reported -/

/-- The bits have been set, or will be by the first step of the loop. -/
def Told (w : World) (taken : Nat) : Prop :=
  answered w.wifi.bits = true ∨ taken = 0 ∧ Answering w

theorem Told.loop {taken : Nat} (h : Told w taken) {l : Label} (hstep : step w l = some w')
    (hloop : isLoop l = true) : Told w' (taken + 1) := by
  cases l with
  | dispatch =>
      have hnot := not_answering_of_dispatch hstep
      have hbits := h.resolve_right fun hanswering => hnot hanswering.2
      simp only [step, Model.dispatch] at hstep
      split at hstep <;> cases hstep
      exact .inl hbits
  | handler ap => exact .inl (answer_handler hstep (h.imp_right And.right))
  | _ => cases hloop

theorem Told.same {taken : Nat} (h : Told w taken) (hbits : w'.wifi.bits = w.wifi.bits)
    (hhandler : w'.handler = w.handler) : Told w' taken := by
  unfold Told Answering at *
  rwa [hbits, hhandler]

/-- While the task waits, the other one leaves its bits alone. -/
theorem waits_step (hinv : Inv w) {task : Task} (hawaits : awaitsDisconnect w task = true)
    {taken : Nat} (h : Told w taken) {l : Label} (hother : byTask task l = false)
    (hstep : step w l = some w') :
    awaitsDisconnect w' task = true ∧ Told w' (taken + if isLoop l then 1 else 0) := by
  have htask {t : Task} (hrespects : Respects t w w') (hsame : Undisturbed w w')
      (ht : task ≠ t) : awaitsDisconnect w' task = true ∧ Told w' taken := by
    have hbits := bits_of_respects hinv.locked hrespects ht hawaits
    exact ⟨(hrespects.others task ht).trans hawaits, h.same hbits hsame.handler⟩
  cases hloop : isLoop l with
  | true =>
      obtain ⟨hmanager, hconsole⟩ := loop_same hstep hloop
      exact ⟨(awaitsDisconnect_same hmanager hconsole task).trans hawaits, h.loop hstep hloop⟩
  | false =>
      cases l with
      | tick d =>
          cases hstep
          exact ⟨hawaits, h⟩
      | driver event =>
          cases hstep
          exact ⟨hawaits, h⟩
      | dispatch => cases hloop
      | handler ap => cases hloop
      | manager answer =>
          cases task with
          | manager => cases hother
          | console =>
              exact htask (managerStep_respects hstep) (managerStep_undisturbed hstep) nofun
      | console answer =>
          cases task with
          | console => cases hother
          | manager =>
              exact htask (consoleStep_respects hstep) (consoleStep_undisturbed hstep) nofun
      | command c =>
          cases task with
          | manager => exact htask (command_respects hstep) (command_undisturbed hstep) nofun
          | console =>
              simp only [step, command] at hstep
              split at hstep
              · rename_i hc
                simp [awaitsDisconnect, hc] at hawaits
              · cases hstep

theorem waits_run {task : Task} {ls : List Label} (hinv : Inv w)
    (hawaits : awaitsDisconnect w task = true) (h : Told w 0)
    (hrun : Run (FiresWhen (fun _ l => byTask task l = false) step) w ls w') :
    Inv w' ∧ awaitsDisconnect w' task = true ∧ Told w' (ls.countP isLoop) := by
  induction hrun with
  | nil => exact ⟨hinv, hawaits, h⟩
  | @snoc ls l t u _ hfires ih =>
      obtain ⟨hinv', hawaits', htold⟩ := ih
      obtain ⟨hother, hstep⟩ := hfires
      rw [List.countP_append, List.countP_singleton]
      exact ⟨hinv'.step hstep, waits_step hinv' hawaits' htold hother hstep⟩

/-- A task that waits in `_disconnect` does not miss that the network is disconnected: whatever
the others do, it can go on, or can after the step that the event loop takes next. -/
theorem disconnect_not_missed {savedNetworks : WifiSavedNetworkInfo} {task : Task}
    {ls : List Label} (h : Reachable (Fires step) (start savedNetworks) w)
    (hawaits : awaitsDisconnect w task = true) (hdisconnected : w.wifi.isConnected = false)
    (hrun : Run (FiresWhen (fun _ l => byTask task l = false) step) w ls w') :
    GoesOn w' task ∨ ls.countP isLoop = 0 ∧
      ∀ ap, ∃ w'', step w' (.handler ap) = some w'' ∧ GoesOn w'' task := by
  have hinv := inv_reachable h
  have htold : Told w 0 := by
    rcases hinv.awaited task hawaits with hconnected | hbits | hanswering
    · rw [hdisconnected] at hconnected
      cases hconnected
    · exact .inl hbits
    · exact .inr ⟨rfl, hanswering⟩
  obtain ⟨_, hawaits', hbits | ⟨hnone, hanswering⟩⟩ := waits_run hinv hawaits htold hrun
  · exact .inl (goesOn_of_answered hawaits' hbits)
  · refine .inr ⟨hnone, fun ap => ?_⟩
    have henabled : ∃ w'', step w' (.handler ap) = some w'' := by
      obtain ⟨event, hhandler, _⟩ := hanswering
      exact Option.isSome_iff_exists.mp (by simp [step, handlerStep, hhandler])
    obtain ⟨w'', hstep⟩ := henabled
    obtain ⟨hmanager, hconsole⟩ := loop_same hstep rfl
    have hawaits'' := (awaitsDisconnect_same hmanager hconsole task).trans hawaits'
    exact ⟨w'', hstep, goesOn_of_answered hawaits'' (answer_handler hstep (.inr hanswering))⟩

/-- The loop sets the bits that the console waits for. -/
theorem disconnect_not_missed_switching : ∃ w w' : World, awaitsDisconnect w .console = true ∧
    w.wifi.isConnected = false ∧ step w (.handler none) = some w' ∧ GoesOn w' .console := by
  have hrun : (exec step (start (saved [home])) switching).any (fun w =>
      awaitsDisconnect w .console && !w.wifi.isConnected && (step w (.handler none)).isSome) =
        true := by
    decide +kernel
  obtain ⟨w, hw, hp⟩ := exists_reachable_of_exec hrun
  simp only [Bool.and_eq_true, Bool.not_eq_true'] at hp
  obtain ⟨⟨hawaits, hdisconnected⟩, henabled⟩ := hp
  obtain ⟨w', hstep⟩ := Option.isSome_iff_exists.mp henabled
  have hsingle : Run (FiresWhen (fun _ l => byTask .console l = false) step) w [.handler none] w' :=
    .single ⟨rfl, hstep⟩
  refine ⟨w, w', hawaits, hdisconnected, hstep, ?_⟩
  rcases disconnect_not_missed hw hawaits hdisconnected hsingle with hgoes | ⟨hnone, _⟩
  · exact hgoes
  · cases hnone

end GbPlay.Esp.Network.Progress
