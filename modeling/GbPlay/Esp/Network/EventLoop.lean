import GbPlay.Esp.Network.Model

/-!
# The event loop

Only the event loop takes events from the queue and only its handlers change whether a
network is connected.  An event that has been queued, or is about to be posted, is
delivered after a bounded number of its steps.
-/

namespace GbPlay.Esp.Network.EventLoop

open GbPlay.Esp.SavedNetworks GbPlay.Esp.Network.Model

/-- A step of the event loop. -/
def isLoop : Label → Bool
  | .dispatch | .handler _ => true
  | _ => false

def isDriver : Label → Bool
  | .driver _ => true
  | _ => false

/-- What the tasks cannot change. -/
structure Undisturbed (w w' : World) : Prop where
  isConnected : w'.wifi.isConnected = w.wifi.isConnected
  queue : w'.queue = w.queue
  handler : w'.handler = w.handler

variable {w w' : World}

theorem disconnectStep_isConnected {s s' : Wifi} {pc : Disconnect} {pc' : Option Disconnect}
    (h : disconnectStep s pc = some (s', pc')) : s'.isConnected = s.isConnected := by
  unfold disconnectStep at h
  split at h
  · cases h
    rfl
  · split at h <;> cases h <;> rfl
  · split at h <;> cases h
    rfl

theorem connectStep_isConnected {task : Task} {force : Bool} {cfg : StaConfig} {answer : Answer}
    {s s' : Wifi} {pc pc' : Connect} {actions : List Action}
    (h : connectStep task force cfg answer s pc = some (s', actions, pc')) :
    s'.isConnected = s.isConnected := by
  cases pc with
  | takeLock =>
      simp only [connectStep] at h
      split at h <;> cases h
      rfl
  | check =>
      simp only [connectStep] at h
      split at h <;> cases h <;> rfl
  | disconnect i pc =>
      simp only [connectStep] at h
      split at h <;> cases h
      · rename_i hstep
        exact disconnectStep_isConnected hstep
      · rename_i hstep
        exact disconnectStep_isConnected hstep
  | clearBits i =>
      cases h
      rfl
  | start i =>
      simp only [connectStep] at h
      split at h <;> cases h <;> rfl
  | waitBits i =>
      simp only [connectStep] at h
      split at h
      · cases h
        rfl
      · split at h <;> cases h
        rfl
  | giveLock didConnect =>
      cases h
      rfl
  | returned didConnect => cases h

theorem managerStep_undisturbed {answer : Answer} (h : managerStep w answer = some w') :
    Undisturbed w w' := by
  unfold managerStep at h
  split at h
  · split at h <;> cases h
    exact ⟨rfl, rfl, rfl⟩
  · cases h
    unfold handleBits
    split
    · split <;> exact ⟨rfl, rfl, rfl⟩
    · split
      · exact ⟨rfl, rfl, rfl⟩
      · split <;> exact ⟨rfl, rfl, rfl⟩
  · cases h
    exact ⟨rfl, rfl, rfl⟩
  · cases h
    exact ⟨rfl, rfl, rfl⟩
  · cases h
    exact ⟨rfl, rfl, rfl⟩
  · cases h
    unfold tryConnect
    dsimp only
    split <;> exact ⟨rfl, rfl, rfl⟩
  · cases h
    exact ⟨rfl, rfl, rfl⟩
  · cases h
    exact ⟨rfl, rfl, rfl⟩
  · split at h
    · rename_i hstep
      cases h
      exact ⟨connectStep_isConnected hstep, rfl, rfl⟩
    · cases h
  · split at h <;> cases h
    exact ⟨rfl, rfl, rfl⟩
  · split at h
    · split at h <;> cases h
      exact ⟨rfl, rfl, rfl⟩
    · cases h
  · cases h
    exact ⟨rfl, rfl, rfl⟩
  · split at h <;> cases h <;> exact ⟨rfl, rfl, rfl⟩
  · split at h <;> cases h
    exact ⟨rfl, rfl, rfl⟩
  · cases h
    unfold comparePrev
    split
    · split <;> exact ⟨rfl, rfl, rfl⟩
    · exact ⟨rfl, rfl, rfl⟩
  · cases h
    exact ⟨rfl, rfl, rfl⟩

theorem consoleStep_undisturbed {answer : Answer} (h : consoleStep w answer = some w') :
    Undisturbed w w' := by
  unfold consoleStep at h
  split at h
  · cases h
  · split at h <;> cases h <;> exact ⟨rfl, rfl, rfl⟩
  · split at h
    · rename_i hstep
      cases h
      exact ⟨connectStep_isConnected hstep, rfl, rfl⟩
    · cases h
  · split at h <;> cases h
    exact ⟨rfl, rfl, rfl⟩
  · split at h
    · rename_i hstep
      cases h
      exact ⟨disconnectStep_isConnected hstep, rfl, rfl⟩
    · rename_i hstep
      cases h
      exact ⟨disconnectStep_isConnected hstep, rfl, rfl⟩
    · cases h
  · cases h
    exact ⟨rfl, rfl, rfl⟩

theorem command_undisturbed {c : Command} (h : command w c = some w') : Undisturbed w w' := by
  unfold command at h
  split at h
  · cases c <;> cases h <;> exact ⟨rfl, rfl, rfl⟩
  · cases h

theorem undisturbed_of_step {l : Label} (h : step w l = some w') (hloop : isLoop l = false)
    (hdriver : isDriver l = false) : Undisturbed w w' := by
  cases l with
  | tick d =>
      cases h
      exact ⟨rfl, rfl, rfl⟩
  | driver event => cases hdriver
  | dispatch => cases hloop
  | handler ap => cases hloop
  | manager answer => exact managerStep_undisturbed h
  | console answer => exact consoleStep_undisturbed h
  | command c => exact command_undisturbed h

/-! ## Delivery -/

/-- The steps that a handler has left. -/
def left : Handler → Nat
  | .idle => 0
  | .onGotIp => 4
  | .onDisconnect _ | .onConnect _ => 3
  | .setBits _ | .copySsid _ => 2
  | .post _ | .setConnectionBits _ => 1

/-- The event that a handler will post. -/
def posts : Handler → List Event
  | .onDisconnect event | .onConnect event | .setBits event | .post event => [.network event]
  | _ => []

/-- The event is NETWORK_EVENT_CONNECTED. -/
def announces : Event → Bool
  | .network event => event.id = .connected
  | _ => false

/-- The handlers of NETWORK_EVENT_CONNECTED are running. -/
def delivering : Handler → Bool
  | .copySsid event | .setConnectionBits event => event.id = .connected
  | _ => false

/-- The step ends the manager's handler of NETWORK_EVENT_CONNECTED. -/
def delivers (w : World) (l : Label) : Bool :=
  match l, w.handler with
  | .handler _, .setConnectionBits event => event.id = .connected
  | _, _ => false

/-- The events that are to be handled, with the one that is going to be posted. -/
def ahead (w : World) : List Event := w.queue ++ posts w.handler

def OnItsWay (w : World) : Prop :=
  delivering w.handler = true ∨ ∃ event ∈ ahead w, announces event = true

/-- The steps of the loop through the first NETWORK_EVENT_CONNECTED. -/
def through : List Event → Nat
  | [] => 0
  | event :: events => 1 + left (handlerOf event) + if announces event then 0 else through events

/-- The steps of the loop until NETWORK_EVENT_CONNECTED has been delivered. -/
def due (w : World) : Nat :=
  left w.handler + if delivering w.handler then 0 else through (ahead w)

theorem left_le (h : Handler) : left h ≤ 4 := by
  cases h <;> simp [left]

theorem through_le (events : List Event) : through events ≤ 5 * events.length := by
  induction events with
  | nil => exact Nat.le_refl 0
  | cons event events ih =>
      have hleft := left_le (handlerOf event)
      simp only [through, List.length_cons]
      split <;> omega

theorem length_posts_le (h : Handler) : (posts h).length ≤ 1 := by
  cases h <;> simp [posts]

theorem due_le (w : World) : due w ≤ 5 * w.queue.length + 9 := by
  have hleft := left_le w.handler
  have hthrough := through_le (ahead w)
  have hposts := length_posts_le w.handler
  rw [ahead, List.length_append] at hthrough
  unfold due ahead
  split <;> omega

/-- What comes behind the first one does not delay it. -/
theorem through_append {events : List Event} (more : List Event)
    (h : ∃ event ∈ events, announces event = true) :
    through (events ++ more) = through events := by
  induction events with
  | nil => simp at h
  | cons event events ih =>
      rw [List.cons_append, through, through]
      split
      · rfl
      · rename_i hother
        rw [ih]
        obtain ⟨e, he, hannounces⟩ := h
        rcases List.mem_cons.mp he with rfl | he
        · exact absurd hannounces hother
        · exact ⟨e, he, hannounces⟩

/-- An event before the first one delays it by the steps of its own handler. -/
theorem through_insert (events more : List Event) (event : Event) :
    through (events ++ event :: more) ≤ through (events ++ more) + 5 := by
  have hleft := left_le (handlerOf event)
  induction events with
  | nil =>
      rw [List.nil_append, List.nil_append, through]
      split <;> omega
  | cons e events ih =>
      rw [List.cons_append, List.cons_append, through, through]
      split <;> omega

theorem OnItsWay.undisturbed (h : OnItsWay w) (hsame : Undisturbed w w') :
    OnItsWay w' ∧ due w' = due w := by
  unfold OnItsWay due ahead at *
  rw [hsame.queue, hsame.handler]
  exact ⟨h, rfl⟩

theorem OnItsWay.driver (h : OnItsWay w) {event : DriverEvent}
    (hstep : step w (.driver event) = some w') : OnItsWay w' ∧ due w' ≤ due w + 5 := by
  cases hstep
  constructor
  · rcases h with h | ⟨e, he, hannounces⟩
    · exact .inl h
    · refine .inr ⟨e, ?_, hannounces⟩
      simp only [ahead, List.mem_append] at he ⊢
      rcases he with he | he
      · exact .inl (.inl he)
      · exact .inr he
  · unfold due ahead
    have hinsert := through_insert w.queue (posts w.handler) (.driver event)
    dsimp only
    rw [List.append_assoc, List.singleton_append]
    split <;> omega

theorem announces_handlerOf {event : Event} (h : announces event = true) :
    ∃ e, handlerOf event = .copySsid e ∧ e.id = .connected := by
  cases event with
  | driver event => cases h
  | network event =>
      have hid : event.id = .connected := of_decide_eq_true h
      exact ⟨event, by simp [handlerOf, hid], hid⟩

/-- The loop takes the next event. -/
theorem OnItsWay.dispatch (h : OnItsWay w) (hstep : dispatch w = some w') :
    OnItsWay w' ∧ due w' + 1 = due w := by
  unfold Model.dispatch at hstep
  split at hstep
  case h_2 => cases hstep
  case h_1 event queue hhandler hqueue =>
      cases hstep
      have hahead : ahead w = event :: queue := by
        rw [ahead, hhandler, hqueue]
        exact List.append_nil _
      have hidle : delivering w.handler = false := by
        rw [hhandler]
        rfl
      have hevent : ∃ e ∈ event :: queue, announces e = true := by
        rw [OnItsWay, hidle, hahead] at h
        simpa using h
      have hdue : due w = through (event :: queue) := by
        rw [due, hidle, hahead, hhandler]
        exact Nat.zero_add _
      rw [hdue, through]
      cases hannounces : announces event with
      | true =>
          obtain ⟨e, hcopy, hid⟩ := announces_handlerOf hannounces
          have hdelivering : delivering (.copySsid e) = true := decide_eq_true hid
          refine ⟨.inl (by rw [hcopy]; exact hdelivering), ?_⟩
          rw [due, hcopy, hdelivering]
          rfl
      | false =>
          have hrest : ∃ e ∈ queue, announces e = true := by
            obtain ⟨e, he, htrue⟩ := hevent
            rcases List.mem_cons.mp he with rfl | he
            · rw [hannounces] at htrue
              cases htrue
            · exact ⟨e, he, htrue⟩
          have hnot : delivering (handlerOf event) = false := by
            cases event with
            | driver event =>
                cases event with
                | staDisconnected ssid reason => cases reason <;> rfl
                | staGotIp => rfl
            | network event =>
                obtain ⟨id, ssid⟩ := event
                cases id with
                | connected => cases hannounces
                | _ => rfl
          obtain ⟨e, he, htrue⟩ := hrest
          refine ⟨.inr ⟨e, List.mem_append_left _ he, htrue⟩, ?_⟩
          rw [due, hnot, ahead]
          dsimp only
          rw [through_append _ ⟨e, he, htrue⟩]
          simp only [Bool.false_eq_true, if_false]
          omega

/-- The handler that is running takes a step. -/
theorem OnItsWay.handler (h : OnItsWay w) {ap : Option Ssid}
    (hstep : handlerStep w ap = some w') :
    delivers w (.handler ap) = true ∨ OnItsWay w' ∧ due w' + 1 ≤ due w := by
  have hsame (hd : Handler) (hleft : left hd + 1 ≤ left w.handler)
      (hdelivering : delivering hd = delivering w.handler) (hahead : ahead w' = ahead w)
      (hw' : w'.handler = hd) : OnItsWay w' ∧ due w' + 1 ≤ due w := by
    unfold OnItsWay due at *
    rw [hahead, hw', hdelivering]
    exact ⟨h, by omega⟩
  cases hhandler : w.handler with
  | idle => simp [handlerStep, hhandler] at hstep
  | onDisconnect event =>
      simp only [handlerStep, hhandler, Option.some.injEq] at hstep
      subst hstep
      exact .inr (hsame (.setBits event) (by simp [hhandler, left]) (by simp [hhandler, delivering])
        (by simp [ahead, hhandler, posts]) rfl)
  | onGotIp =>
      have hidle : delivering w.handler = false := by
        rw [hhandler]
        rfl
      have hahead : ahead w = w.queue := by
        rw [ahead, hhandler]
        exact List.append_nil _
      have hqueue : ∃ e ∈ w.queue, announces e = true := by
        rw [OnItsWay, hidle, hahead] at h
        simpa using h
      have hdue : due w = 4 + through w.queue := by
        rw [due, hidle, hahead, hhandler]
        rfl
      obtain ⟨e, he, htrue⟩ := hqueue
      simp only [handlerStep, hhandler] at hstep
      refine .inr ⟨.inr ⟨e, ?_, htrue⟩, ?_⟩
      · split at hstep <;> cases hstep <;> exact List.mem_append_left _ he
      · rw [hdue]
        split at hstep <;> cases hstep
        · simp only [due, delivering, ahead, Bool.false_eq_true, if_false, left]
          rw [through_append _ ⟨e, he, htrue⟩]
          omega
        · simp only [due, delivering, ahead, Bool.false_eq_true, if_false, left]
          rw [through_append _ ⟨e, he, htrue⟩]
          omega
  | onConnect event =>
      simp only [handlerStep, hhandler, Option.some.injEq] at hstep
      subst hstep
      exact .inr (hsame (.setBits event) (by simp [hhandler, left]) (by simp [hhandler, delivering])
        (by simp [ahead, hhandler, posts]) rfl)
  | setBits event =>
      simp only [handlerStep, hhandler, Option.some.injEq] at hstep
      subst hstep
      exact .inr (hsame (.post event) (by simp [hhandler, left]) (by simp [hhandler, delivering])
        (by simp [ahead, hhandler, posts]) rfl)
  | post event =>
      simp only [handlerStep, hhandler, Option.some.injEq] at hstep
      subst hstep
      exact .inr (hsame .idle (by simp [hhandler, left]) (by simp [hhandler, delivering])
        (by simp [ahead, hhandler, posts]) rfl)
  | copySsid event =>
      simp only [handlerStep, hhandler, Option.some.injEq] at hstep
      subst hstep
      exact .inr (hsame (.setConnectionBits event) (by simp [hhandler, left])
        (by simp [hhandler, delivering]) (by simp [ahead, hhandler, posts]) rfl)
  | setConnectionBits event =>
      by_cases hid : event.id = .connected
      · left
        simp [delivers, hhandler, hid]
      · simp only [handlerStep, hhandler, Option.some.injEq] at hstep
        subst hstep
        exact .inr (hsame .idle (by simp [hhandler, left]) (by simp [hhandler, delivering, hid])
          (by simp [ahead, hhandler, posts]) rfl)

/-- A step of the loop delivers it or brings it nearer. -/
theorem OnItsWay.loop (h : OnItsWay w) {l : Label} (hstep : step w l = some w')
    (hloop : isLoop l = true) : delivers w l = true ∨ OnItsWay w' ∧ due w' + 1 ≤ due w := by
  cases l with
  | dispatch =>
      obtain ⟨honway, hdue⟩ := h.dispatch hstep
      exact .inr ⟨honway, Nat.le_of_eq hdue⟩
  | handler ap => exact h.handler hstep
  | _ => cases hloop

/-- The loop can go on. -/
theorem OnItsWay.enabled (h : OnItsWay w) : ∃ l, isLoop l = true ∧ (step w l).isSome = true := by
  cases hhandler : w.handler with
  | idle =>
      rcases h with h | ⟨e, he, _⟩
      · rw [hhandler] at h
        cases h
      · have hposts : posts .idle = [] := rfl
        rw [ahead, hhandler, hposts, List.append_nil] at he
        refine ⟨.dispatch, rfl, ?_⟩
        cases hqueue : w.queue with
        | nil => simp [hqueue] at he
        | cons event queue => simp [step, Model.dispatch, hhandler, hqueue]
  | _ => exact ⟨.handler none, rfl, by simp [step, handlerStep, hhandler]⟩

/-! ## Connections -/

/-- `_on_connect` posts NETWORK_EVENT_CONNECTED. -/
def Announcing (w : World) : Prop := ∀ event, w.handler = .onConnect event → event.id = .connected

theorem announcing_start (savedNetworks : WifiSavedNetworkInfo) :
    Announcing (start savedNetworks) := nofun

/-- What the handlers change, and what they are followed by. -/
theorem connection_of_loop {l : Label} (h : step w l = some w') (hloop : isLoop l = true) :
    (∃ event, w.handler = .onConnect event ∧ w'.handler = .setBits event) ∨
      (w'.wifi.isConnected = true → w.wifi.isConnected = true) ∧
        ∀ event, w'.handler = .onConnect event → event.id = .connected := by
  cases l with
  | dispatch =>
      simp only [step, Model.dispatch] at h
      split at h
      case h_2 => cases h
      case h_1 event queue _ _ =>
          cases h
          refine .inr ⟨id, fun e he => ?_⟩
          dsimp only at he
          unfold handlerOf at he
          split at he <;> first | cases he | (split at he <;> cases he)
  | handler ap =>
      cases hhandler : w.handler with
      | idle => simp [step, handlerStep, hhandler] at h
      | onGotIp =>
          simp only [step, handlerStep, hhandler] at h
          split at h <;> cases h
          · refine .inr ⟨id, fun e he => ?_⟩
            cases he
            rfl
          · exact .inr ⟨id, nofun⟩
      | onConnect event =>
          simp only [step, handlerStep, hhandler, Option.some.injEq] at h
          subst h
          exact .inl ⟨event, rfl, rfl⟩
      | onDisconnect event =>
          simp only [step, handlerStep, hhandler, Option.some.injEq] at h
          subst h
          exact .inr ⟨nofun, nofun⟩
      | _ =>
          simp only [step, handlerStep, hhandler, Option.some.injEq] at h
          subst h
          exact .inr ⟨id, nofun⟩
  | _ => cases hloop

theorem connection_of_other {l : Label} (h : step w l = some w') (hloop : isLoop l = false) :
    w'.wifi.isConnected = w.wifi.isConnected ∧ w'.handler = w.handler := by
  cases hdriver : isDriver l with
  | false =>
      have hsame := undisturbed_of_step h hloop hdriver
      exact ⟨hsame.isConnected, hsame.handler⟩
  | true =>
      cases l with
      | driver event =>
          cases h
          exact ⟨rfl, rfl⟩
      | _ => cases hdriver

theorem Announcing.step (h : Announcing w) {l : Label} (hstep : step w l = some w') :
    Announcing w' := by
  cases hloop : isLoop l with
  | false =>
      intro event he
      exact h event ((connection_of_other hstep hloop).2 ▸ he)
  | true =>
      rcases connection_of_loop hstep hloop with ⟨event, _, hset⟩ | ⟨_, hannouncing⟩
      · intro e he
        rw [hset] at he
        cases he
      · exact hannouncing

/-- When the network becomes connected, the event is on its way. -/
theorem onItsWay_of_connected (h : Announcing w) {l : Label} (hstep : Model.step w l = some w')
    (hbefore : w.wifi.isConnected = false) (hafter : w'.wifi.isConnected = true) :
    OnItsWay w' := by
  cases hloop : isLoop l with
  | false =>
      rw [(connection_of_other hstep hloop).1, hbefore] at hafter
      cases hafter
  | true =>
      rcases connection_of_loop hstep hloop with ⟨event, hon, hset⟩ | ⟨hstays, _⟩
      · refine .inr ⟨.network event, ?_, decide_eq_true (h event hon)⟩
        rw [ahead, hset]
        exact List.mem_append_right _ List.mem_cons_self
      · rw [hstays hafter] at hbefore
        cases hbefore

end GbPlay.Esp.Network.EventLoop
