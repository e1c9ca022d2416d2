import GbPlay.Esp.Network.EventLoop
import GbPlay.Esp.Network.Moves
import GbPlay.Esp.SocketManager.Model

/-!
# Waking the socket manager

The socket manager next to the other tasks of the program: its calls are answered at any
time, except that `wifi_is_connected` reads the status of the Wi-Fi, and that
`xTaskNotifyWait` returns when the task has been notified, before or since.  The event
loop notifies it in `_on_network_connect`, the handler of NETWORK_EVENT_CONNECTED that has
been registered after the one of the network manager.
-/

namespace GbPlay.Esp.SocketManager.Wakeup

open GbPlay.Library GbPlay.Library.Runs GbPlay.Library.Calls GbPlay.Library.Calls.Program
open GbPlay.Esp.SavedNetworks GbPlay.Esp.Network.EventLoop
open GbPlay.Esp.Network.Model (World)
open GbPlay.Esp.Network.Moves (gotIp home)

structure State where
  network : World
  /-- What `task_socket_manager` has yet to do. -/
  program : Program Answer Empty
  /-- The task has a notification pending. -/
  notified : Bool
  /-- The event loop runs `_on_network_connect` next. -/
  notifying : Bool

inductive Label
  /-- A step of the other tasks, the event loop or the driver. -/
  | network (l : Network.Model.Label)
  /-- `_on_network_connect` -/
  | notify
  /-- A call of the task is answered. -/
  | task (e : Event Answer)

/-- `xTaskNotifyWait` takes the notification. -/
def taskStep (s : State) : Event Answer → Option State
  | ⟨.wifiIsConnected, connected⟩ =>
      if connected = s.network.wifi.isConnected then
        (s.program.resume ⟨.wifiIsConnected, connected⟩).map fun p => { s with program := p }
      else none
  | ⟨.xTaskNotifyWait, r⟩ =>
      if s.notified then
        (s.program.resume ⟨.xTaskNotifyWait, r⟩).map fun p =>
          { s with program := p, notified := false }
      else none
  | e => (s.program.resume e).map fun p => { s with program := p }

def step (s : State) : Label → Option State
  | .network l =>
      if s.notifying && isLoop l then none
      else (Network.Model.step s.network l).map fun w =>
        { s with network := w, notifying := s.notifying || delivers s.network l }
  | .notify => if s.notifying then some { s with notified := true, notifying := false } else none
  | .task e => taskStep s e

/-- The task is started when the network is already managed. -/
def start (network : World) (program : Program Answer Empty) : State where
  network
  program
  notified := false
  notifying := false

/-- The task is in `xTaskNotifyWait`. -/
def Waiting (s : State) : Prop := ∃ next, s.program = .call .xTaskNotifyWait next

/-- A step of the event loop. -/
def byLoop : Label → Bool
  | .network l => isLoop l
  | .notify => true
  | .task _ => false

def byDriver : Label → Bool
  | .network l => isDriver l
  | _ => false

def byTask : Label → Bool
  | .task _ => true
  | _ => false

/-! ## Programs that wait only without a network -/

section Guarded

variable {α β σ : Type}

/-- The program waits only where it has just been answered that there is no network. -/
inductive Guarded : Program Answer α → Prop
  | done (a : α) : Guarded (.done a)
  | stuck : Guarded .stuck
  | ask {next : Bool → Program Answer α} {next' : Unit → Program Answer α}
      (hwait : next false = .call .xTaskNotifyWait next') (htrue : Guarded (next true))
      (hrest : Guarded (next' ())) : Guarded (.call .wifiIsConnected next)
  | other {c : Call} {next : Answer c → Program Answer α} (hask : c ≠ .wifiIsConnected)
      (hwait : c ≠ .xTaskNotifyWait) (h : ∀ r, Guarded (next r)) : Guarded (.call c next)

theorem guarded_bind {p : Program Answer α} {f : α → Program Answer β} (h : Guarded p)
    (hf : ∀ a, Guarded (f a)) : Guarded (p >>= f) := by
  show Guarded (p.bind f)
  induction h with
  | done a => exact hf a
  | stuck => exact .stuck
  | @ask next next' hwait _ _ ihtrue ihrest =>
      have hthen : (next false).bind f = .call .xTaskNotifyWait fun r => (next' r).bind f := by
        rw [hwait]
        rfl
      exact .ask hthen ihtrue ihrest
  | other hask hwait _ ih => exact .other hask hwait ih

theorem guarded_perform {c : Call} {f : Answer c → Program Answer α}
    (hask : c ≠ .wifiIsConnected) (hwait : c ≠ .xTaskNotifyWait) (h : ∀ r, Guarded (f r)) :
    Guarded (perform c >>= f) := .other hask hwait h

theorem guarded_loop {body : σ → Program Answer (σ ⊕ α)} (h : ∀ s, Guarded (body s))
    (turns : Nat) (s : σ) : Guarded (loop body turns s) := by
  induction turns generalizing s with
  | zero => exact .stuck
  | succ turns ih =>
      refine guarded_bind (h s) fun r => ?_
      cases r with
      | inl s' => exact ih s'
      | inr a => exact .done a

theorem guarded_onSockets (p : Program Socket.Answer α) : Guarded (onSockets p) := by
  induction p with
  | done a => exact .done a
  | stuck => exact .stuck
  | call c next ih => exact .other nofun nofun ih

end Guarded

theorem guarded_awaitNetwork : Guarded awaitNetwork :=
  Guarded.ask rfl (.done ()) (.done ())

theorem guarded_connectToServer (turns : Nat) : Guarded (connectToServer turns) := by
  refine guarded_perform nofun nofun fun host => guarded_perform nofun nofun fun port => ?_
  refine guarded_bind ?_ fun sock => .done sock
  refine guarded_bind (guarded_onSockets _) fun sock => ?_
  cases sock <;> exact .done _

theorem guarded_handleDataUntilError (turns : Nat) (sock : Socket.Fd) (rx tx : BitVec 32)
    (memory : Memory 32) : Guarded (handleDataUntilError turns sock rx tx memory) := by
  refine guarded_loop (fun memory => ?_) turns memory
  refine guarded_bind (guarded_onSockets _) fun r => ?_
  obtain ⟨ok, memory'⟩ := r
  dsimp only
  split
  · refine guarded_perform nofun nofun fun answer => ?_
    refine guarded_bind (guarded_onSockets _) fun ok => ?_
    split <;> exact .done _
  · exact .done _

theorem guarded_taskSocketManager (turns : Nat) (rx tx : BitVec 32) (memory : Memory 32) :
    Guarded (taskSocketManager turns rx tx memory) := by
  refine guarded_loop (fun memory => ?_) turns memory
  refine guarded_bind guarded_awaitNetwork fun _ => ?_
  refine guarded_bind (guarded_connectToServer turns) fun sock => ?_
  split
  · exact .done _
  · refine guarded_bind (guarded_handleDataUntilError ..) fun memory' => ?_
    exact guarded_perform nofun nofun fun _ => .done _

/-! ## Every run -/

variable {s s' : State}

/-- A notification is on its way. -/
def Coming (s : State) : Prop := s.notifying = true ∨ OnItsWay s.network

theorem Coming.onItsWay (h : Coming s) (hnotifying : s.notifying = false) :
    OnItsWay s.network := by
  rcases h with h | h
  · rw [hnotifying] at h
    cases h
  · exact h

/-- Unless the task waits, it is at a program that waits only without a network; if it does,
it has been notified, or will be when there is a network. -/
structure Inv (s : State) : Prop where
  announcing : Announcing s.network
  task : Guarded s.program ∨ ∃ next, s.program = .call .xTaskNotifyWait next ∧
    Guarded (next ()) ∧
      (s.notified = false → s.network.wifi.isConnected = true → Coming s)

theorem step_network {l : Network.Model.Label} (h : step s (.network l) = some s') :
    ∃ w, Network.Model.step s.network l = some w ∧ (s.notifying = true → isLoop l = false) ∧
      s' = { s with network := w, notifying := s.notifying || delivers s.network l } := by
  simp only [step, Option.ite_none_left_eq_some] at h
  obtain ⟨hfree, h⟩ := h
  obtain ⟨w, hw, rfl⟩ := Option.map_eq_some_iff.mp h
  refine ⟨w, hw, fun hnotifying => ?_, rfl⟩
  simpa [hnotifying] using hfree

theorem step_notify (h : step s .notify = some s') :
    s.notifying = true ∧ s' = { s with notified := true, notifying := false } := by
  simp only [step, Option.ite_none_right_eq_some, Option.some.injEq] at h
  exact ⟨h.1, h.2.symm⟩

/-- The other tasks leave a notification on its way. -/
theorem Coming.network (h : Coming s) {l : Network.Model.Label}
    (hstep : step s (.network l) = some s') : Coming s' := by
  obtain ⟨w, hw, _, rfl⟩ := step_network hstep
  rcases h with h | h
  · exact .inl (by simp [h])
  · cases hloop : isLoop l with
    | true =>
        rcases h.loop hw hloop with hdelivers | ⟨honway, _⟩
        · exact .inl (by simp [hdelivers])
        · exact .inr honway
    | false =>
        cases hdriver : isDriver l with
        | true =>
            cases l with
            | driver event => exact .inr (h.driver hw).1
            | _ => cases hdriver
        | false => exact .inr (h.undisturbed (undisturbed_of_step hw hloop hdriver)).1

theorem Inv.network (h : Inv s) {l : Network.Model.Label}
    (hstep : step s (.network l) = some s') : Inv s' := by
  have hcoming (hbefore : Coming s) : Coming s' := hbefore.network hstep
  obtain ⟨w, hw, _, rfl⟩ := step_network hstep
  refine ⟨h.announcing.step hw, ?_⟩
  rcases h.task with hguarded | ⟨next, hprogram, hguarded, hnotify⟩
  · exact .inl hguarded
  · refine .inr ⟨next, hprogram, hguarded, fun hnot hconnected => ?_⟩
    cases hbefore : s.network.wifi.isConnected with
    | true => exact hcoming (hnotify hnot hbefore)
    | false => exact .inr (onItsWay_of_connected h.announcing hw hbefore hconnected)

theorem Inv.notify (h : Inv s) (hstep : step s .notify = some s') : Inv s' := by
  obtain ⟨_, rfl⟩ := step_notify hstep
  refine ⟨h.announcing, ?_⟩
  rcases h.task with hguarded | ⟨next, hprogram, hguarded, _⟩
  · exact .inl hguarded
  · exact .inr ⟨next, hprogram, hguarded, nofun⟩

theorem step_task {e : Event Answer} (h : step s (.task e) = some s') :
    ∃ next, s.program = .call e.call next ∧ s'.program = next e.answer ∧
      s'.network = s.network ∧ s'.notifying = s.notifying := by
  have hresume (notified : Bool)
      (h : (s.program.resume e).map (fun p => { s with program := p, notified }) = some s') :
      ∃ next, s.program = .call e.call next ∧ s'.program = next e.answer ∧
        s'.network = s.network ∧ s'.notifying = s.notifying := by
    obtain ⟨p, hp, rfl⟩ := Option.map_eq_some_iff.mp h
    obtain ⟨next, hcall, rfl⟩ := resume_eq_some hp
    exact ⟨next, hcall, rfl, rfl, rfl⟩
  obtain ⟨c, r⟩ := e
  cases c with
  | wifiIsConnected =>
      simp only [step, taskStep, Option.ite_none_right_eq_some] at h
      exact hresume s.notified h.2
  | xTaskNotifyWait =>
      simp only [step, taskStep, Option.ite_none_right_eq_some] at h
      exact hresume false h.2
  | _ => exact hresume s.notified h

theorem answer_of_step {connected : Bool}
    (h : step s (.task ⟨.wifiIsConnected, connected⟩) = some s') :
    connected = s.network.wifi.isConnected := by
  simp only [step, taskStep, Option.ite_none_right_eq_some] at h
  exact h.1

theorem Inv.task_step (h : Inv s) {e : Event Answer} (hstep : step s (.task e) = some s') :
    Inv s' := by
  obtain ⟨next, hcall, hprogram, hnetwork, hnotifying⟩ := step_task hstep
  refine ⟨hnetwork ▸ h.announcing, ?_⟩
  rw [hprogram]
  rcases h.task with hguarded | ⟨next', hwaits, hguarded, _⟩
  · rw [hcall] at hguarded
    obtain ⟨c, r⟩ := e
    cases hguarded with
    | other _ _ hrest => exact .inl (hrest r)
    | ask hwait htrue hrest =>
        have hanswer : r = s.network.wifi.isConnected := answer_of_step hstep
        cases r with
        | true => exact .inl htrue
        | false =>
            -- the task is going to wait, and there is no network yet
            refine .inr ⟨_, hwait, hrest, fun _ hconnected => ?_⟩
            rw [hnetwork, ← hanswer] at hconnected
            cases hconnected
  · rw [hwaits] at hcall
    obtain ⟨c, r⟩ := e
    cases hcall
    exact .inl hguarded

theorem Inv.step {l : Label} (h : Inv s) (hstep : Wakeup.step s l = some s') : Inv s' := by
  cases l with
  | network l => exact h.network hstep
  | notify => exact h.notify hstep
  | task e => exact h.task_step hstep

theorem inv_reachable {w : World} {turns : Nat} {rx tx : BitVec 32} {memory : Memory 32}
    (hannouncing : Announcing w)
    (h : Reachable (Fires step) (start w (taskSocketManager turns rx tx memory)) s) : Inv s := by
  have hinit : Inv (start w (taskSocketManager turns rx tx memory)) :=
    ⟨hannouncing, .inl (guarded_taskSocketManager ..)⟩
  exact h.invariant hinit fun _ _ _ hinv hstep => hinv.step hstep

theorem announcing_reachable {savedNetworks : WifiSavedNetworkInfo} {w : World}
    (h : Reachable (Fires Network.Model.step) (Network.Model.start savedNetworks) w) :
    Announcing w :=
  h.invariant (announcing_start savedNetworks) fun _ _ _ hinv hstep => hinv.step hstep

/-! ## Until the task is notified -/

/-- The steps of the loop until `_on_network_connect` has returned. -/
def dueAll (s : State) : Nat := if s.notifying then 1 else due s.network + 1

theorem dueAll_le (s : State) : dueAll s ≤ 5 * (s.network.queue.length + 2) := by
  have hdue := due_le s.network
  unfold dueAll
  split <;> omega

theorem one_le_dueAll (s : State) : 1 ≤ dueAll s := by
  unfold dueAll
  split <;> omega

theorem one_le_due {w : World} {l : Network.Model.Label} (h : delivers w l = true) :
    1 ≤ due w := by
  unfold delivers at h
  split at h
  case h_1 event hhandler =>
      rw [due, hhandler]
      exact Nat.le_add_right 1 _
  case h_2 => cases h

/-- Only the driver can delay the notification, by one more event. -/
theorem Coming.dueAll_le (h : Coming s) {l : Network.Model.Label}
    (hstep : step s (.network l) = some s') :
    dueAll s' + (if isLoop l then 1 else 0) ≤ dueAll s + if isDriver l then 5 else 0 := by
  obtain ⟨w, hw, hfree, rfl⟩ := step_network hstep
  cases hnotifying : s.notifying with
  | true =>
      simp [dueAll, hnotifying, hfree hnotifying]
  | false =>
      have honway := h.onItsWay hnotifying
      have hbefore : dueAll s = due s.network + 1 := by simp [dueAll, hnotifying]
      have hafter : dueAll ⟨w, s.program, s.notified, false || delivers s.network l⟩ ≤
          due w + 1 := by
        unfold dueAll
        split <;> simp
      rw [hbefore]
      cases hloop : isLoop l with
      | true =>
          rcases honway.loop hw hloop with hdelivers | ⟨_, hdue⟩
          · have hpos := one_le_due hdelivers
            simp only [dueAll, hdelivers, Bool.or_true, if_true]
            omega
          · simp only [if_true]
            omega
      | false =>
          cases hdriver : isDriver l with
          | true =>
              cases l with
              | driver event =>
                  have hdue := (honway.driver hw).2
                  simp only [if_true, Bool.false_eq_true, if_false]
                  omega
              | _ => cases hdriver
          | false =>
              have hdue := (honway.undisturbed (undisturbed_of_step hw hloop hdriver)).2
              simp only [Bool.false_eq_true, if_false]
              omega

/-- The task waits and has been notified, or will be after so many steps of the loop that,
with those `taken`, there are at most `allowed`. -/
def Awaits (s : State) (taken allowed : Nat) : Prop :=
  Waiting s ∧ (s.notified = true ∨ Coming s ∧ taken + dueAll s ≤ allowed)

theorem awaits_step {taken allowed : Nat} (h : Awaits s taken allowed) {l : Label}
    (htask : byTask l = false) (hstep : step s l = some s') :
    Awaits s' (taken + if byLoop l then 1 else 0) (allowed + if byDriver l then 5 else 0) := by
  obtain ⟨⟨next, hwaits⟩, hcoming⟩ := h
  cases l with
  | task e => cases htask
  | notify =>
      obtain ⟨_, rfl⟩ := step_notify hstep
      exact ⟨⟨next, hwaits⟩, .inl rfl⟩
  | network l =>
      obtain ⟨w, hw, hfree, heq⟩ := step_network hstep
      refine ⟨⟨next, heq ▸ hwaits⟩, ?_⟩
      rcases hcoming with hnotified | ⟨hcoming, htaken⟩
      · exact .inl (heq ▸ hnotified)
      · have hle := hcoming.dueAll_le hstep
        refine .inr ⟨hcoming.network hstep, ?_⟩
        show taken + (if isLoop l then 1 else 0) + dueAll s' ≤
          allowed + if isDriver l then 5 else 0
        omega

theorem awaits_run {ls : List Label} {t : State} {allowed : Nat} (h : Awaits s 0 allowed)
    (hrun : Run (FiresWhen (fun _ l => byTask l = false) step) s ls t) :
    Awaits t (ls.countP byLoop) (allowed + 5 * ls.countP byDriver) := by
  induction hrun with
  | nil => exact h
  | @snoc ls l t u _ hfires ih =>
      have hnext := awaits_step ih hfires.1 hfires.2
      have hdriver : 5 * (ls ++ [l]).countP byDriver =
          5 * ls.countP byDriver + if byDriver l then 5 else 0 := by
        rw [List.countP_append, List.countP_singleton, Nat.mul_add]
        split <;> rfl
      rw [List.countP_append, List.countP_singleton, hdriver, ← Nat.add_assoc]
      exact hnext

/-- The loop can go on until the task is notified. -/
theorem Coming.enabled (h : Coming s) : ∃ l, byLoop l = true ∧ (step s l).isSome = true := by
  cases hnotifying : s.notifying with
  | true => exact ⟨.notify, rfl, by simp [step, hnotifying]⟩
  | false =>
      have honway := h.onItsWay hnotifying
      obtain ⟨l, hloop, henabled⟩ := honway.enabled
      exact ⟨.network l, hloop, by simpa [step, hnotifying] using henabled⟩

/-- A task that has asked for the network before there was one, and waits, is notified when
there is one: it can go on, or the event loop can, which takes a bounded number of steps
until then. -/
theorem wakeup_not_lost {savedNetworks : WifiSavedNetworkInfo} {w : World} {turns : Nat}
    {rx tx : BitVec 32} {memory : Memory 32} {t : State} {ls : List Label}
    (hnetwork : Reachable (Fires Network.Model.step) (Network.Model.start savedNetworks) w)
    (h : Reachable (Fires step) (start w (taskSocketManager turns rx tx memory)) s)
    (hwaiting : Waiting s) (hconnected : s.network.wifi.isConnected = true)
    (hrun : Run (FiresWhen (fun _ l => byTask l = false) step) s ls t) :
    (step t (.task ⟨.xTaskNotifyWait, ()⟩)).isSome = true ∨
      (∃ l, byLoop l = true ∧ (step t l).isSome = true) ∧
        ls.countP byLoop < 5 * (s.network.queue.length + 2) + 5 * ls.countP byDriver := by
  have hinv := inv_reachable (announcing_reachable hnetwork) h
  have hcoming : s.notified = true ∨ Coming s := by
    obtain ⟨next, hwaits⟩ := hwaiting
    rcases hinv.task with hguarded | ⟨_, _, _, hnotify⟩
    · rw [hwaits] at hguarded
      cases hguarded with
      | other _ hwait _ => exact absurd rfl hwait
    · cases hnotified : s.notified with
      | true => exact .inl rfl
      | false => exact .inr (hnotify hnotified hconnected)
  have hbegin : Awaits s 0 (5 * (s.network.queue.length + 2)) := by
    refine ⟨hwaiting, hcoming.imp_right fun hcoming => ⟨hcoming, ?_⟩⟩
    rw [Nat.zero_add]
    exact dueAll_le s
  obtain ⟨⟨next, hwaits⟩, hnotified | ⟨hcoming, hallowed⟩⟩ := awaits_run hbegin hrun
  · left
    simp [step, taskStep, hnotified, hwaits, resume]
  · have hdue := one_le_dueAll t
    exact .inr ⟨hcoming.enabled, by omega⟩

theorem waiting_of_resume (h : (s.program.resume ⟨.xTaskNotifyWait, ()⟩).isSome = true) :
    Waiting s := by
  obtain ⟨p, hp⟩ := Option.isSome_iff_exists.mp h
  obtain ⟨next, hcall, _⟩ := resume_eq_some hp
  exact ⟨next, hcall⟩

/-- The task waits, the network is connected, and NETWORK_EVENT_CONNECTED is queued. -/
theorem wakeup_not_lost_queued :
    ∃ s t : State, Waiting s ∧ s.network.wifi.isConnected = true ∧ s.notified = false ∧
      (step t (.task ⟨.xTaskNotifyWait, ()⟩)).isSome = false ∧
        ∃ l, byLoop l = true ∧ (step t l).isSome = true := by
  have hasked : (exec step (start (Network.Model.start .zero)
      (taskSocketManager 3 0x100 0x101 fun _ => 0))
      (.task ⟨.wifiIsConnected, false⟩ :: ((gotIp home).take 4).map .network)).any (fun s =>
        (s.program.resume ⟨.xTaskNotifyWait, ()⟩).isSome && s.network.wifi.isConnected &&
          !s.notified &&
            (exec (guarded (fun _ l => byTask l = false) step) s
              (((gotIp home).drop 4).map .network)).any
                (fun t => !(step t (.task ⟨.xTaskNotifyWait, ()⟩)).isSome)) = true := by
    decide +kernel
  obtain ⟨s, hs, hp⟩ := exists_reachable_of_exec hasked
  simp only [Bool.and_eq_true, Bool.not_eq_true'] at hp
  obtain ⟨⟨⟨hresume, hconnected⟩, hnot⟩, hrest⟩ := hp
  obtain ⟨t, hguarded, hblocked⟩ := exists_run_of_exec hrest
  have hrun := hguarded.mono fun _ _ _ hfire => guarded_fires hfire
  have hwaiting := waiting_of_resume hresume
  rw [Bool.not_eq_true'] at hblocked
  refine ⟨s, t, hwaiting, hconnected, hnot, hblocked, ?_⟩
  rcases wakeup_not_lost (.refl _) hs hwaiting hconnected hrun with hgoes | ⟨hloop, _⟩
  · rw [hblocked] at hgoes
    cases hgoes
  · exact hloop

end GbPlay.Esp.SocketManager.Wakeup
