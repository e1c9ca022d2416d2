import GbPlay.Esp.Network.Moves
import GbPlay.Library.Histories

/-!
# Leaving a network

After the user has left a network the manager is not to look for another one
until a connection is dropped.  It keeps to that when LEFT reaches it outside the
handling of DROPPED; the loop that reconnects never looks at LEFT.
-/

namespace GbPlay.Esp.Network.Leaving

open GbPlay.Library
open GbPlay.Library.Runs
open GbPlay.Library.Histories
open GbPlay.Esp.SavedNetworks
open GbPlay.Esp.Network.History
open GbPlay.Esp.Network.Model
open GbPlay.Esp.Network.Moves

def isLeave : Action → Bool
  | .delivered ⟨.left, _⟩ => true
  | _ => false

def isDrop : Action → Bool
  | .delivered ⟨.dropped, _⟩ => true
  | _ => false

/-- A LEFT has been delivered, and no DROPPED since. -/
abbrev HasLeft (log : List Action) : Prop := HappenedSince isDrop isLeave log

/-- The manager calls `wifi_connect` only if no LEFT has been delivered since the
last DROPPED. -/
def LeaveRespected (a : Action) (past : List Action) : Prop :=
  isCall a = true → ¬ HasLeft past

instance (a : Action) (past : List Action) : Decidable (LeaveRespected a past) :=
  inferInstanceAs (Decidable (_ → _))

/-- The manager has woken up to DROPPED and is not done with it. -/
def reconnecting : Manager → Bool
  | .waiting | .ensureNetworkInfo _ | .blockNetwork _ => false
  | .woken bits => bits.dropped
  | _ => true

/-- DROPPED is neither waiting to be heard nor being handled. -/
def Quiet (w : World) : Prop :=
  w.connectionBits.dropped = false ∧ reconnecting w.manager = false

def deliversLeft (w : World) : Label → Bool
  | .handler _ =>
      match w.handler with
      | .setConnectionBits ⟨.left, _⟩ => true
      | _ => false
  | _ => false

/-- LEFT is delivered only when no DROPPED is pending or being handled. -/
def LeftUndisturbed (w : World) (l : Label) : Prop :=
  deliversLeft w l = true → Quiet w

instance (w : World) (l : Label) : Decidable (LeftUndisturbed w l) :=
  inferInstanceAs (Decidable (_ → _ ∧ _))

/-! ## Actions that are neither LEFT, nor DROPPED, nor a call -/

def Neutral (actions : List Action) : Prop :=
  ∀ a ∈ actions, (isDrop a = false ∧ isLeave a = false) ∧ isCall a = false

theorem leaveRespected_of_not_call {a : Action} (h : isCall a = false) (past : List Action) :
    LeaveRespected a past := by
  intro hcall
  rw [h] at hcall
  cases hcall

theorem Neutral.hasLeft {actions log : List Action} (h : Neutral actions)
    (hleft : HasLeft (actions ++ log)) : HasLeft log :=
  hleft.of_append fun a ha => (h a ha).1

theorem Neutral.always {actions log : List Action} (h : Neutral actions)
    (hcalls : Always LeaveRespected log) : Always LeaveRespected (actions ++ log) :=
  hcalls.append fun a ha => leaveRespected_of_not_call (h a ha).2

/-! ## The invariant -/

structure Inv (w : World) : Prop where
  quiet : HasLeft w.log → Quiet w
  calls : Always LeaveRespected w.log

theorem inv_start (savedNetworks : WifiSavedNetworkInfo) : Inv (start savedNetworks) := by
  refine ⟨?_, trivial⟩
  intro h
  exact absurd h not_happenedSince_nil

/-- Steps between the events keep the invariant if they keep the quiet. -/
theorem Inv.of_neutral {w w' : World} (h : Inv w) (hquiet : Quiet w → Quiet w')
    (hlog : ∃ actions, Neutral actions ∧ w'.log = actions ++ w.log) :
    Inv w' := by
  obtain ⟨actions, hneutral, heq⟩ := hlog
  refine ⟨?_, ?_⟩
  · intro hleft
    rw [heq] at hleft
    exact hquiet (h.quiet (hneutral.hasLeft hleft))
  · rw [heq]
    exact hneutral.always h.calls

/-- While the manager reconnects, no LEFT is waiting for an answer. -/
theorem Inv.not_hasLeft {w : World} (h : Inv w) (hreconnecting : reconnecting w.manager = true) :
    ¬ HasLeft w.log := by
  intro hleft
  have hidle := (h.quiet hleft).2
  rw [hreconnecting] at hidle
  cases hidle

theorem not_quiet {w : World} {P : Prop} (hreconnecting : reconnecting w.manager = true)
    (h : Quiet w) : P := by
  have hidle := h.2
  rw [hreconnecting] at hidle
  cases hidle

theorem inv_handleBits {w : World} {bits : EventBits} (h : Inv w)
    (hwoken : w.manager = .woken bits) : Inv (handleBits w bits) := by
  have hbits (hquiet : Quiet w) : bits.dropped = false := by
    have hidle := hquiet.2
    rw [hwoken] at hidle
    exact hidle
  unfold handleBits
  split
  · -- DROPPED
    rename_i hdropped
    have hno (hquiet : Quiet w) : False := by
      rw [hbits hquiet] at hdropped
      cases hdropped
    split <;> exact h.of_neutral (fun hquiet => (hno hquiet).elim) ⟨[], by simp [Neutral], rfl⟩
  · split
    · -- LEFT
      exact h.of_neutral (fun hquiet => ⟨hquiet.1, rfl⟩) ⟨[], by simp [Neutral], rfl⟩
    · split
      · -- CONNECTED
        exact h.of_neutral (fun hquiet => ⟨hquiet.1, rfl⟩)
          ⟨[.cleared], by simp [Neutral, isLeave, isDrop, isCall], rfl⟩
      · exact h.of_neutral (fun hquiet => ⟨hquiet.1, rfl⟩) ⟨[], by simp [Neutral], rfl⟩

theorem inv_tryConnect {w : World} {creds : WifiNetworkCredentials} {next : Next} (h : Inv w)
    (hmanager : w.manager = .tryConnect creds next) : Inv (tryConnect w creds next) := by
  have hreconnecting : reconnecting w.manager = true := by
    rw [hmanager]
    rfl
  have hensured : Neutral [.ensured creds.ssid.str] := by
    simp [Neutral, isLeave, isDrop, isCall]
  have hleft : ¬ HasLeft ([.ensured creds.ssid.str] ++ w.log) := fun hleft =>
    h.not_hasLeft hreconnecting (hensured.hasLeft hleft)
  unfold tryConnect
  dsimp only
  split
  · exact h.of_neutral (not_quiet hreconnecting) ⟨_, hensured, rfl⟩
  · refine ⟨?_, fun _ => hleft, hensured.always h.calls⟩
    intro hcalled
    have hcalled' : HasLeft ([.called creds.ssid.str w.now] ++
        ([.ensured creds.ssid.str] ++ w.log)) := hcalled
    exact absurd (hcalled'.of_append (by simp [isLeave, isDrop])) hleft

theorem inv_compares {w w' : World} {i : Nat} (h : Inv w) (hcompares : Compares w i w') :
    Inv w' := by
  have hensured : Neutral [.ensured w.history.prevSsid.str] := by
    simp [Neutral, isLeave, isDrop, isCall]
  cases hcompares with
  | passed =>
      exact h.of_neutral (fun hquiet => ⟨hquiet.1, rfl⟩) ⟨[], by simp [Neutral], rfl⟩
  | found => exact h.of_neutral (fun hquiet => ⟨hquiet.1, rfl⟩) ⟨_, hensured, rfl⟩
  | inserted => exact h.of_neutral (fun hquiet => ⟨hquiet.1, rfl⟩) ⟨_, hensured, rfl⟩

theorem inv_deliver {w : World} {ap : Option Ssid} {event : NetworkEvent} (h : Inv w)
    (hundisturbed : LeftUndisturbed w (.handler ap))
    (hhandler : w.handler = .setConnectionBits event) :
    Inv { w with
      connectionBits := w.connectionBits.set event.id
      handler := .idle
      log := .delivered event :: w.log } := by
  obtain ⟨id, ssid⟩ := event
  cases id with
  | dropped =>
      refine ⟨?_, leaveRespected_of_not_call rfl _, h.calls⟩
      intro hleft
      exact absurd hleft (not_happenedSince_cons rfl)
  | left =>
      refine ⟨?_, leaveRespected_of_not_call rfl _, h.calls⟩
      intro _
      exact hundisturbed (by simp [deliversLeft, hhandler])
  | connected =>
      exact h.of_neutral id
        ⟨[.delivered _], by simp [Neutral, isLeave, isDrop, isCall], rfl⟩

theorem inv_wake {w : World} (h : Inv w) :
    Inv ((World.note { w with connectionBits := .none } [.woke w.connectionBits]).goto
      (.woken w.connectionBits)) := by
  apply h.of_neutral
  · intro hquiet
    exact ⟨rfl, hquiet.1⟩
  · exact ⟨[.woke _], by simp [Neutral, isLeave, isDrop, isCall], rfl⟩

theorem inv_step {w w' : World} {l : Label} (h : Inv w) (hundisturbed : LeftUndisturbed w l)
    (hmove : Move w l w') : Inv w' := by
  cases hmove with
  | aside haside =>
      obtain ⟨actions, hconsole, hlog⟩ := haside.log
      refine h.of_neutral ?_ ⟨actions, ?_, hlog⟩
      · unfold Quiet
        rw [haside.connectionBits, haside.manager]
        exact id
      · intro a ha
        have hbyConsole := hconsole a ha
        cases a <;> first | exact ⟨⟨rfl, rfl⟩, rfl⟩ | cases hbyConsole
  | announce =>
      exact h.of_neutral id
        ⟨[.announced _], by simp [Neutral, isLeave, isDrop, isCall], rfl⟩
  | deliver hhandler => exact inv_deliver h hundisturbed hhandler
  | wake => exact inv_wake h
  | handleBits hmanager => exact inv_handleBits h hmanager
  | roam wifi hroaming =>
      have hreconnecting : reconnecting w.manager = true := by
        cases hm : w.manager <;> rw [hm] at hroaming <;> first | rfl | cases hroaming
      exact h.of_neutral (not_quiet hreconnecting) ⟨[], by simp [Neutral], rfl⟩
  | tryConnect hmanager => exact inv_tryConnect h hmanager
  | connect hmanager hstep =>
      refine h.of_neutral (not_quiet (by rw [hmanager]; rfl)) ⟨_, ?_, rfl⟩
      intro a ha
      obtain rfl | ⟨ssid, didConnect, rfl⟩ := connectStep_actions hstep a ha
      · exact ⟨⟨rfl, rfl⟩, rfl⟩
      · exact ⟨⟨rfl, rfl⟩, rfl⟩
  | connected hmanager =>
      exact h.of_neutral (not_quiet (by rw [hmanager]; rfl)) ⟨[], by simp [Neutral], rfl⟩
  | failed hmanager =>
      exact h.of_neutral (not_quiet (by rw [hmanager]; rfl))
        ⟨[.blocked _ _ _], by simp [Neutral, isLeave, isDrop, isCall], rfl⟩
  | comparePrev _ hcompares => exact inv_compares h hcompares
  | blockLeft =>
      exact h.of_neutral (fun hquiet => ⟨hquiet.1, rfl⟩)
        ⟨[.blocked _ _ _], by simp [Neutral, isLeave, isDrop, isCall], rfl⟩

theorem inv_reachable {savedNetworks : WifiSavedNetworkInfo} {w : World}
    (h : Reachable (FiresWhen LeftUndisturbed step) (start savedNetworks) w) : Inv w :=
  h.invariant (inv_start savedNetworks) fun _ _ _ hinv hfire =>
    inv_step hinv hfire.1 (step_move hfire.2)

/-! ## The contract -/

/-- In every run in which LEFT is never delivered into the handling of a DROPPED,
no call of `wifi_connect` disregards it. -/
theorem leave_respected {savedNetworks : WifiSavedNetworkInfo} {w : World}
    (h : Reachable (FiresWhen LeftUndisturbed step) (start savedNetworks) w) :
    Always LeaveRespected w.log :=
  (inv_reachable h).calls

/-- The user leaves one network while the manager waits, and the next network is
dropped: only then does the manager connect again. -/
theorem leave_respected_dropped :
    ∃ w : World, w.log.any isLeave = true ∧ w.log.any isCall = true ∧
      Always LeaveRespected w.log := by
  have hrun : (exec (guarded LeftUndisturbed step) (start (saved [home]))
      (scanned [home] [] ++ byManager 1 ++ userConnects cafe ++ [.tick 30000000] ++ byManager 4 ++
        userDisconnects cafe ++ handlesLeft ++ userConnects home ++ byManager 2 ++
        lost home .other ++ handled 1 ++ byManager 6)).any
      (fun w => w.log.any isLeave && w.log.any isCall) = true := by
    decide
  obtain ⟨w, hw, hp⟩ := exists_reachable_of_exec hrun
  rw [Bool.and_eq_true] at hp
  exact ⟨w, hp.1, hp.2, leave_respected hw.of_guarded⟩

/-- While the manager sleeps between two scans the user connects and disconnects
again; the manager goes on and connects to the network just left. -/
theorem leave_disregarded :
    ∃ w, Reachable (Fires step) (start (saved [cafe])) w ∧ ¬ Always LeaveRespected w.log := by
  have hrun : (exec step (start (saved [cafe]))
      (scanned [cafe] [] ++ byManager 1 ++ userConnects cafe ++ userDisconnects cafe ++
        [.tick 30000000] ++ byManager 5)).any
      (fun w => decide (¬ Always LeaveRespected w.log)) = true := by
    decide
  obtain ⟨w, hw, hp⟩ := exists_reachable_of_exec hrun
  exact ⟨w, hw, of_decide_eq_true hp⟩

end GbPlay.Esp.Network.Leaving
