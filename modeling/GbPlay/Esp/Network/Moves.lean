import GbPlay.Esp.Network.Model
import GbPlay.Library.Mutex

/-!
# What a step can do to the network manager

Every step of the system is a step of the manager, of one of its two kinds of
event handlers, or leaves the manager aside.
-/

namespace GbPlay.Esp.Network.Moves

open GbPlay.Library
open GbPlay.Esp.SavedNetworks
open GbPlay.Esp.Network.History
open GbPlay.Esp.Network.Model

/-- The manager calls `wifi_connect`. -/
def isCall : Action → Bool
  | .called _ _ => true
  | _ => false

/-! ## The lock -/

/-- `s_wifi_lock` guards the configuration of the driver. -/
def mutex (s : Wifi) : Mutex Task StaConfig := ⟨s.lock, s.config⟩

def Connect.holdsLock : Connect → Bool
  | .takeLock | .returned _ => false
  | _ => true

def Manager.holdsLock : Manager → Bool
  | .connecting _ _ _ pc => Connect.holdsLock pc
  | .scanning => true
  | _ => false

def Console.holdsLock : Console → Bool
  | .connecting _ _ _ pc => Connect.holdsLock pc
  | .disconnecting (.disconnect _) | .disconnecting .giveLock => true
  | _ => false

/-! ## Moves -/

/-- An action of the console in `wifi_connect`. -/
def byConsole : Action → Bool
  | .foundConnected .console => true
  | .attempted .console _ _ => true
  | _ => false

/-- A step that leaves the manager and its data alone. -/
structure Aside (w w' : World) : Prop where
  now : w.now ≤ w'.now
  terminated : w.savedNetworks.Terminated → w'.savedNetworks.Terminated
  connectionBits : w'.connectionBits = w.connectionBits
  history : w'.history = w.history
  manager : w'.manager = w.manager
  lock : Mutex.Use .console (mutex w.wifi) (Console.holdsLock w.console) (mutex w'.wifi)
    (Console.holdsLock w'.console)
  log : ∃ actions, (∀ a ∈ actions, byConsole a = true) ∧ w'.log = actions ++ w.log

/-- In the loop that reconnects, outside `_try_connect`. -/
def roaming : Manager → Bool
  | .reconnect | .tryConnectPrev | .getSavedNetwork _ _ | .scan | .scanning
  | .tryAutoconnect _ | .sleeping _ => true
  | _ => false

/-- The table that the manager is searching. -/
def searched : Manager → Option WifiSavedNetworkInfo
  | .getSavedNetwork savedNetworks _ => some savedNetworks
  | _ => none

/-- A table that the manager may read. -/
def Readable (w : World) (savedNetworks : WifiSavedNetworkInfo) : Prop :=
  savedNetworks = w.savedNetworks ∨ searched w.manager = some savedNetworks

/-- Where the manager goes on from there. -/
inductive Roams (w : World) : Manager → Prop
  | waiting : Roams w .waiting
  | roaming {m : Manager} (h : roaming m = true)
      (hm : ∀ savedNetworks, searched m = some savedNetworks → Readable w savedNetworks) :
      Roams w m
  | tryConnect {savedNetworks : WifiSavedNetworkInfo} {next : Next} (i : Nat)
      (h : Readable w savedNetworks) : Roams w (.tryConnect (savedNetworks.network i) next)

/-- A step of `_ensure_network_info` for `prev_ssid`: an entry is passed over, found or
made. -/
inductive Compares (w : World) (i : Nat) : World → Prop
  | passed (hi : i < networkHistorySize)
      (h : (w.history.usedNetworks ⟨i, hi⟩).ssid.str ≠ w.history.prevSsid.str) :
      Compares w i (w.goto (.ensureNetworkInfo (i + 1)))
  | found (hi : i < networkHistorySize)
      (h : (w.history.usedNetworks ⟨i, hi⟩).ssid.str = w.history.prevSsid.str) :
      Compares w i ((w.note [.ensured w.history.prevSsid.str]).goto (.blockNetwork ⟨i, hi⟩))
  | inserted (hi : networkHistorySize ≤ i) :
      Compares w i ((World.note
        { w with history := (w.history.insertNetworkInfo w.history.prevSsid.str).1 }
        [.ensured w.history.prevSsid.str]).goto
          (.blockNetwork (w.history.insertNetworkInfo w.history.prevSsid.str).2))

theorem compares_comparePrev (w : World) (i : Nat) : Compares w i (comparePrev w i) := by
  unfold comparePrev
  split
  case isTrue hi =>
      split
      case isTrue hfound => exact .found hi hfound
      case isFalse hpassed => exact .passed hi hpassed
  case isFalse hi => exact .inserted (Nat.le_of_not_lt hi)

inductive Move (w : World) : Label → World → Prop
  | aside {l : Label} {w' : World} (h : Aside w w') : Move w l w'
  | announce {ap : Option Ssid} {event : NetworkEvent} (h : w.handler = .copySsid event) :
      Move w (.handler ap) { w with
        history := w.history.setPrevSsid event.ssid.name
        handler := .setConnectionBits event
        log := .announced event.ssid.name :: w.log }
  | deliver {ap : Option Ssid} {event : NetworkEvent} (h : w.handler = .setConnectionBits event) :
      Move w (.handler ap) { w with
        connectionBits := w.connectionBits.set event.id
        handler := .idle
        log := .delivered event :: w.log }
  | wake {answer : Answer} (h : w.manager = .waiting) :
      Move w (.manager answer)
        ((World.note { w with connectionBits := .none } [.woke w.connectionBits]).goto
          (.woken w.connectionBits))
  | handleBits {answer : Answer} {bits : EventBits} (h : w.manager = .woken bits) :
      Move w (.manager answer) (handleBits w bits)
  | roam {answer : Answer} {m : Manager} (wifi : Wifi) (h : roaming w.manager = true)
      (hm : Roams w m)
      (hlock : Mutex.Use .manager (mutex w.wifi) (Manager.holdsLock w.manager) (mutex wifi)
        (Manager.holdsLock m)) :
      Move w (.manager answer) (World.goto { w with wifi } m)
  | tryConnect {answer : Answer} {creds : WifiNetworkCredentials} {next : Next}
      (h : w.manager = .tryConnect creds next) :
      Move w (.manager answer) (tryConnect w creds next)
  | connect {info : Fin networkHistorySize} {creds : WifiNetworkCredentials} {next : Next}
      {pc pc' : Connect} {answer : Answer} {wifi : Wifi} {actions : List Action}
      (h : w.manager = .connecting info creds next pc)
      (hstep : connectStep .manager false (.cfg creds.ssid.str creds.pass.str) answer w.wifi pc =
        some (wifi, actions, pc')) :
      Move w (.manager answer)
        ((World.note { w with wifi } actions).goto (.connecting info creds next pc'))
  | connected {answer : Answer} {info : Fin networkHistorySize}
      {creds : WifiNetworkCredentials} {next : Next}
      (h : w.manager = .connecting info creds next (.returned true)) :
      Move w (.manager answer) (w.goto .waiting)
  | failed {answer : Answer} {info : Fin networkHistorySize}
      {creds : WifiNetworkCredentials} {next : Next}
      (h : w.manager = .connecting info creds next (.returned false)) :
      Move w (.manager answer) ((block w info .failed).goto next.manager)
  | comparePrev {answer : Answer} {i : Nat} {w' : World} (h : w.manager = .ensureNetworkInfo i)
      (hcompares : Compares w i w') : Move w (.manager answer) w'
  | blockLeft {answer : Answer} {info : Fin networkHistorySize}
      (h : w.manager = .blockNetwork info) :
      Move w (.manager answer) ((block w info .left).goto .waiting)

/-! ## The tasks and handlers other than the manager's -/

section Connect

variable {task : Task} {force : Bool} {cfg : StaConfig} {answer : Answer} {s s' : Wifi}
  {pc pc' : Connect} {actions : List Action}

/-- All that `wifi_connect` lets one observe is its own attempts. -/
theorem connectStep_actions (h : connectStep task force cfg answer s pc = some (s', actions, pc')) :
    ∀ a ∈ actions, a = .foundConnected task ∨
      ∃ ssid didConnect, a = .attempted task ssid didConnect := by
  cases pc with
  | takeLock =>
      simp only [connectStep] at h
      split at h <;> cases h
      simp
  | check =>
      simp only [connectStep] at h
      split at h <;> cases h <;> simp
  | disconnect i pc =>
      simp only [connectStep] at h
      split at h <;> cases h <;> simp
  | clearBits i =>
      cases h
      simp
  | start i =>
      simp only [connectStep] at h
      split at h <;> cases h <;> simp
  | waitBits i =>
      simp only [connectStep] at h
      split at h
      · cases h
        intro a ha
        exact .inr ⟨_, _, List.mem_singleton.mp ha⟩
      · split at h <;> cases h
        simp
  | giveLock didConnect =>
      cases h
      simp
  | returned didConnect => cases h

theorem disconnectStep_mutex {pc : Disconnect} {pc' : Option Disconnect}
    (h : disconnectStep s pc = some (s', pc')) : mutex s' = mutex s := by
  unfold disconnectStep at h
  split at h
  · cases h
    rfl
  · split at h <;> cases h <;> rfl
  · split at h <;> cases h
    rfl

/-- `wifi_connect` configures the driver while it holds the lock. -/
theorem connectStep_use (h : connectStep task force cfg answer s pc = some (s', actions, pc')) :
    Mutex.Use task (mutex s) (Connect.holdsLock pc) (mutex s') (Connect.holdsLock pc') := by
  cases pc with
  | takeLock =>
      simp only [connectStep] at h
      split at h <;> cases h
      rename_i hfree
      exact .take hfree
  | check =>
      simp only [connectStep] at h
      split at h <;> cases h
      · exact .rest true
      · exact .write cfg
  | disconnect i pc =>
      simp only [connectStep] at h
      split at h <;> cases h
      · rename_i hstep
        rw [disconnectStep_mutex hstep]
        exact .rest true
      · rename_i hstep
        rw [disconnectStep_mutex hstep]
        exact .rest true
  | clearBits i =>
      cases h
      exact .rest true
  | start i =>
      simp only [connectStep] at h
      split at h <;> cases h <;> exact .rest true
  | waitBits i =>
      have hnext : Connect.holdsLock (nextAttempt i) = true := by
        unfold nextAttempt
        split <;> rfl
      simp only [connectStep] at h
      split at h
      · cases h
        cases s.bits.connected with
        | true => exact .rest true
        | false =>
            rw [if_neg (by simp), hnext]
            exact .rest true
      · split at h <;> cases h
        rw [hnext]
        exact .rest true
  | giveLock didConnect =>
      cases h
      exact .give
  | returned didConnect => cases h

end Connect

section Aside

variable {w w' : World}

theorem aside_of_same (w : World) (wifi : Wifi) (queue : List Event) (handler : Handler)
    (console : Console) (hlock : Mutex.Use .console (mutex w.wifi) (Console.holdsLock w.console)
      (mutex wifi) (Console.holdsLock console)) :
    Aside w { w with wifi, queue, handler, console } :=
  ⟨le_refl _, id, rfl, rfl, rfl, hlock, [], by simp, rfl⟩

theorem dispatch_aside (h : dispatch w = some w') : Aside w w' := by
  unfold dispatch at h
  split at h
  · cases h
    exact aside_of_same _ _ _ _ _ (.rest _)
  · cases h

theorem handlerStep_move {ap : Option Ssid} (h : handlerStep w ap = some w') :
    Move w (.handler ap) w' := by
  cases hhandler : w.handler with
  | idle => simp [handlerStep, hhandler] at h
  | onDisconnect event =>
      simp only [handlerStep, hhandler, Option.some.injEq] at h
      subst h
      exact .aside (aside_of_same _ _ _ _ _ (.rest _))
  | onGotIp =>
      simp only [handlerStep, hhandler] at h
      split at h <;> cases h <;> exact .aside (aside_of_same _ _ _ _ _ (.rest _))
  | onConnect event =>
      simp only [handlerStep, hhandler, Option.some.injEq] at h
      subst h
      exact .aside (aside_of_same _ _ _ _ _ (.rest _))
  | setBits event =>
      simp only [handlerStep, hhandler, Option.some.injEq] at h
      subst h
      exact .aside (aside_of_same _ _ _ _ _ (.rest _))
  | post event =>
      simp only [handlerStep, hhandler, Option.some.injEq] at h
      subst h
      exact .aside (aside_of_same _ _ _ _ _ (.rest _))
  | copySsid event =>
      simp only [handlerStep, hhandler, Option.some.injEq] at h
      subst h
      exact .announce hhandler
  | setConnectionBits event =>
      simp only [handlerStep, hhandler, Option.some.injEq] at h
      subst h
      exact .deliver hhandler

theorem consoleStep_aside {answer : Answer} (h : consoleStep w answer = some w') :
    Aside w w' := by
  unfold consoleStep at h
  split at h
  · cases h
  · -- `wifi_connect` has returned
    rename_i hconsole
    have hlock : Mutex.Use .console (mutex w.wifi) (Console.holdsLock w.console) (mutex w.wifi)
        false := by
      rw [hconsole]
      exact .rest false
    split at h <;> cases h
    · refine ⟨le_refl _, ?_, rfl, rfl, rfl, hlock, [], by simp, rfl⟩
      intro hterminated
      dsimp only
      cases hsave : w.savedNetworks.save _ _ with
      | none => exact hterminated
      | some t => exact hterminated.save hsave
    · exact aside_of_same _ _ _ _ _ hlock
  · -- a step of `wifi_connect`
    rename_i hconsole
    split at h
    · rename_i hstep
      cases h
      refine ⟨le_refl _, id, rfl, rfl, rfl, ?_, _, ?_, rfl⟩
      · rw [hconsole]
        exact connectStep_use hstep
      · intro a ha
        obtain rfl | ⟨ssid, didConnect, rfl⟩ := connectStep_actions hstep a ha
        · rfl
        · rfl
    · cases h
  · rename_i hconsole
    split at h <;> cases h
    rename_i hfree
    apply aside_of_same
    rw [hconsole]
    exact .take hfree
  · rename_i hconsole
    split at h
    · rename_i hstep
      cases h
      apply aside_of_same
      rw [hconsole, disconnectStep_mutex hstep]
      exact .rest true
    · rename_i hstep
      cases h
      apply aside_of_same
      rw [hconsole, disconnectStep_mutex hstep]
      exact .rest true
    · cases h
  · rename_i hconsole
    cases h
    apply aside_of_same
    rw [hconsole]
    exact .give

theorem command_aside {c : Command} (h : command w c = some w') : Aside w w' := by
  unfold command at h
  split at h
  · rename_i hconsole
    cases c with
    | connect ssid password save =>
        have hout : Connect.holdsLock (wifiConnect ssid password) = false := by
          unfold wifiConnect
          split <;> rfl
        cases h
        apply aside_of_same
        rw [hconsole, Console.holdsLock, hout]
        exact .rest false
    | disconnect =>
        cases h
        apply aside_of_same
        rw [hconsole]
        exact .rest false
    | forget ssid =>
        cases h
        refine ⟨le_refl _, ?_, rfl, rfl, rfl, .rest _, [], by simp, rfl⟩
        intro hterminated
        dsimp only
        cases hforget : w.savedNetworks.forget ssid with
        | none => exact hterminated
        | some t => exact hterminated.forget hforget
  · cases h

end Aside

/-! ## The manager -/

theorem managerStep_move {w w' : World} {answer : Answer} (h : managerStep w answer = some w') :
    Move w (.manager answer) w' := by
  -- going on in the loop without touching the lock
  have roams {m m' : Manager} (hw : w.manager = m) (hroaming : roaming m = true)
      (hout : Manager.holdsLock m = false) (hm : Roams w m')
      (hout' : Manager.holdsLock m' = false) : Move w (.manager answer) (w.goto m') := by
    refine .roam w.wifi (hw ▸ hroaming) hm ?_
    rw [hw, hout, hout']
    exact .rest false
  unfold managerStep at h
  split at h
  · rename_i hm
    split at h <;> cases h
    exact .wake hm
  · rename_i bits hm
    cases h
    exact .handleBits hm
  · rename_i hm
    cases h
    split
    · exact roams hm rfl rfl .waiting rfl
    · exact roams hm rfl rfl (.roaming rfl nofun) rfl
  · rename_i hm
    cases h
    refine roams hm rfl rfl (.roaming rfl fun t ht => ?_) rfl
    exact .inl (Option.some.inj ht).symm
  · rename_i savedNetworks i hm
    cases h
    have hreadable : Readable w savedNetworks := .inr (by rw [hm]; rfl)
    unfold compareSaved
    split
    · split
      · exact roams hm rfl rfl (.tryConnect i hreadable) rfl
      · refine roams hm rfl rfl (.roaming rfl fun t ht => ?_) rfl
        exact Option.some.inj ht ▸ hreadable
    · exact roams hm rfl rfl (.roaming rfl nofun) rfl
  · rename_i hm
    cases h
    exact .tryConnect hm
  · rename_i hm
    cases h
    exact .connected hm
  · rename_i hm
    cases h
    exact .failed hm
  · rename_i hm
    split at h
    · rename_i hstep
      cases h
      exact .connect hm hstep
    · cases h
  · rename_i hm
    split at h <;> cases h
    rename_i hfree
    refine .roam _ (by rw [hm]; rfl) (.roaming rfl nofun) ?_
    rw [hm]
    exact .take hfree
  · rename_i hm
    split at h
    · split at h <;> cases h
      refine .roam _ (by rw [hm]; rfl) (.roaming rfl nofun) ?_
      rw [hm]
      exact .give
    · cases h
  · rename_i hm
    cases h
    exact roams hm rfl rfl (.roaming rfl nofun) rfl
  · rename_i hm
    split at h <;> cases h
    · exact roams hm rfl rfl (.roaming rfl nofun) rfl
    · rename_i hlookup
      obtain ⟨i, _, rfl⟩ := Option.map_eq_some_iff.mp hlookup
      exact roams hm rfl rfl (.tryConnect i (.inl rfl)) rfl
  · rename_i hm
    split at h <;> cases h
    exact roams hm rfl rfl (.roaming rfl nofun) rfl
  · rename_i i hm
    cases h
    exact .comparePrev hm (compares_comparePrev w i)
  · rename_i hm
    cases h
    exact .blockLeft hm

theorem step_move {w w' : World} {l : Label} (h : step w l = some w') : Move w l w' := by
  cases l with
  | tick d =>
      cases h
      exact .aside ⟨Nat.le_add_right .., id, rfl, rfl, rfl, .rest _, [], by simp, rfl⟩
  | driver event =>
      cases h
      exact .aside (aside_of_same _ _ _ _ _ (.rest _))
  | dispatch => exact .aside (dispatch_aside h)
  | handler ap => exact handlerStep_move h
  | manager answer => exact managerStep_move h
  | console answer => exact .aside (consoleStep_aside h)
  | command c => exact .aside (command_aside h)

/-! ## Stretches of runs -/

/-- A network with a name of one letter. -/
def letter (b : UInt8) (h : b ≠ 0) : Ssid where
  name := ⟨[b], List.forall_mem_singleton.mpr h⟩
  fits := Nat.le_add_left 1 31

def home : Ssid := letter 104 (by decide)

def cafe : Ssid := letter 99 (by decide)

/-- A table with these networks, each with its own name as its password. -/
def saved (networks : List Ssid) : WifiSavedNetworkInfo :=
  networks.foldr (fun ssid t => t.append ssid.name ssid.name) .zero

theorem terminated_saved (networks : List Ssid) : (saved networks).Terminated := by
  induction networks with
  | nil => exact WifiSavedNetworkInfo.terminated_zero
  | cons ssid networks ih => exact ih.append ssid.name ssid.name

def byManager (n : Nat) : List Label := List.replicate n (.manager .proceed)

def byUser (n : Nat) : List Label := List.replicate n (.console .proceed)

/-- `n` steps of the handlers of the next event. -/
def handled (n : Nat) : List Label := .dispatch :: List.replicate n (.handler none)

/-- The driver has lost a network, and `wifi.c` passes the event on. -/
def lost (ssid : Ssid) (reason : Reason) : List Label :=
  .driver (.staDisconnected ssid reason) :: handled 3

/-- The driver has connected to a network, and `wifi.c` passes the event on. -/
def gotIp (ssid : Ssid) : List Label :=
  [.driver .staGotIp, .dispatch, .handler (some ssid)] ++ List.replicate 3 (.handler none)

/-- The manager wakes up, finds no previous network among those saved and scans. -/
def scanned (networks aps : List Ssid) : List Label :=
  byManager (6 + networks.length) ++ [.manager (.scanned aps)]

/-- The manager wakes up to LEFT and blocks a network that it has no entry for. -/
def handlesLeft : List Label := byManager (networkHistorySize + 4)

/-- The user connects to a network while connected to none. -/
def userConnects (ssid : Ssid) : List Label :=
  .command (.connect ssid.name ssid.name false) :: byUser 6 ++ gotIp ssid ++ byUser 3 ++ handled 2

/-- The user disconnects from the network. -/
def userDisconnects (ssid : Ssid) : List Label :=
  .command .disconnect :: byUser 3 ++ lost ssid .assocLeave ++ byUser 2 ++ handled 1

end GbPlay.Esp.Network.Moves
