import GbPlay.Esp.Network.Moves
import GbPlay.Library.Histories

/-!
# The list of blocked networks after a connection

A CONNECTED event clears the list when the manager wakes up to it, unless
DROPPED has been set too: then the manager looks at nothing else, and the bit is
cleared unread.
-/

namespace GbPlay.Esp.Network.BlockList

open GbPlay.Library
open GbPlay.Library.Runs
open GbPlay.Library.Histories
open GbPlay.Esp.SavedNetworks
open GbPlay.Esp.Network.History
open GbPlay.Esp.Network.Model
open GbPlay.Esp.Network.Moves

def isBlock : Action → Bool
  | .blocked _ _ _ => true
  | _ => false

def isConnection : Action → Bool
  | .delivered ⟨.connected, _⟩ => true
  | _ => false

/-- A CONNECTED event has been delivered since any network was blocked. -/
abbrev ConnectedSinceBlock (log : List Action) : Prop :=
  HappenedSince isBlock isConnection log

def isWaiting : Manager → Bool
  | .waiting => true
  | _ => false

/-- Back at its wait with nothing to hear, after a connection, the manager has no
network blocked. -/
def BlockListCleared (w : World) : Prop :=
  isWaiting w.manager = true → w.connectionBits = .none → ConnectedSinceBlock w.log →
    w.history.Unblocked w.now

instance (w : World) : Decidable (BlockListCleared w) :=
  inferInstanceAs (Decidable (_ → _ → _ → _))

def isManager : Label → Bool
  | .manager _ => true
  | _ => false

/-- The manager does not wake up to DROPPED and CONNECTED together while some
network is blocked. -/
def ConnectedHeard (w : World) (l : Label) : Prop :=
  isManager l = true ∧ isWaiting w.manager = true ∧ w.connectionBits.dropped = true ∧
    w.connectionBits.connected = true → w.history.Unblocked w.now

instance (w : World) (l : Label) : Decidable (ConnectedHeard w l) :=
  inferInstanceAs (Decidable (_ → _))

/-! ## The invariant -/

/-- CONNECTED is still to be heard: its bit is set, or the manager has woken up
to it and not to DROPPED. -/
def Pending (w : World) : Prop :=
  w.connectionBits.connected = true ∨
    ∃ bits, w.manager = .woken bits ∧ bits.dropped = false ∧ bits.connected = true

/-- The manager has turned to LEFT and is going to block a network. -/
def leaving : Manager → Bool
  | .ensureNetworkInfo _ | .blockNetwork _ => true
  | _ => false

/-- The manager is looking at the bits that it has woken up to. -/
def attentive : Manager → Bool
  | .woken _ => true
  | m => leaving m

theorem attentive_of_leaving {m : Manager} (h : leaving m = true) : attentive m = true := by
  cases m <;> first | rfl | cases h

theorem attentive_of_roaming {m : Manager} (h : roaming m = true) : attentive m = false := by
  cases m <;> first | rfl | cases h

theorem not_leaving_of_isWaiting {m : Manager} (h : isWaiting m = true) : leaving m = false := by
  cases m <;> first | rfl | cases h

def Inv (w : World) : Prop :=
  ConnectedSinceBlock w.log →
    w.history.Unblocked w.now ∨ Pending w ∨ leaving w.manager = true

theorem inv_start (savedNetworks : WifiSavedNetworkInfo) : Inv (start savedNetworks) := by
  intro h
  exact absurd h not_happenedSince_nil

/-- What blocks nothing, delivers no CONNECTED and leaves the bits alone keeps
the invariant; the manager may go on unless it is looking at them. -/
theorem Inv.of_neutral {w w' : World} (h : Inv w) (hnow : w.now ≤ w'.now)
    (hblocks : ∀ now, w.history.Unblocked now → w'.history.Unblocked now)
    (hbits : w'.connectionBits.connected = w.connectionBits.connected)
    (hmanager : attentive w.manager = true → w'.manager = w.manager)
    (hlog : ∃ actions, (∀ a ∈ actions, isBlock a = false ∧ isConnection a = false) ∧
      w'.log = actions ++ w.log) :
    Inv w' := by
  intro hconnected
  obtain ⟨actions, hneutral, heq⟩ := hlog
  rw [heq] at hconnected
  rcases h (hconnected.of_append hneutral) with
    hunblocked | (hbit | ⟨bits, hwoken, hheard⟩) | hleaving
  · exact .inl ((hblocks _ hunblocked).mono hnow)
  · exact .inr (.inl (.inl (hbits.trans hbit)))
  · have hsame := hmanager (by rw [hwoken]; rfl)
    exact .inr (.inl (.inr ⟨bits, hsame.trans hwoken, hheard⟩))
  · rw [← hmanager (attentive_of_leaving hleaving)] at hleaving
    exact .inr (.inr hleaving)

theorem inv_of_leaving {w : World} (h : leaving w.manager = true) : Inv w :=
  fun _ => .inr (.inr h)

theorem inv_handleBits {w : World} {bits : EventBits} (h : Inv w)
    (hwoken : w.manager = .woken bits) : Inv (handleBits w bits) := by
  have hpending (hconnected : ConnectedSinceBlock w.log) :
      w.history.Unblocked w.now ∨ w.connectionBits.connected = true ∨
        bits.dropped = false ∧ bits.connected = true := by
    rcases h hconnected with hunblocked | (hbit | ⟨bits', hwoken', hheard⟩) | hleaving
    · exact .inl hunblocked
    · exact .inr (.inl hbit)
    · rw [hwoken] at hwoken'
      cases hwoken'
      exact .inr (.inr hheard)
    · rw [hwoken] at hleaving
      cases hleaving
  -- going on without having heard of a connection
  have hon {m : Manager} (hdeaf : ¬ (bits.dropped = false ∧ bits.connected = true)) :
      Inv (w.goto m) := by
    intro hconnected
    obtain hunblocked | hbit | hheard := hpending hconnected
    · exact .inl hunblocked
    · exact .inr (.inl (.inl hbit))
    · exact absurd hheard hdeaf
  unfold handleBits
  split
  · rename_i hdropped
    split <;> exact hon (by simp [hdropped])
  · rename_i hdropped
    split
    · -- LEFT is going to block a network
      exact inv_of_leaving rfl
    · split
      · -- CONNECTED clears the list
        intro _
        left
        exact NetworkHistory.unblocked_clearNetworkHistory
      · rename_i hconnected
        exact hon (by simp [hconnected])

theorem inv_compares {w w' : World} {i : Nat} (hcompares : Compares w i w') : Inv w' := by
  cases hcompares with
  | passed => exact inv_of_leaving rfl
  | found => exact inv_of_leaving rfl
  | inserted => exact inv_of_leaving rfl

theorem inv_tryConnect {w : World} {creds : WifiNetworkCredentials} {next : Next} (h : Inv w)
    (hmanager : w.manager = .tryConnect creds next) : Inv (tryConnect w creds next) := by
  have hno (m : Manager) (hattentive : attentive w.manager = true) : m = w.manager := by
    rw [hmanager] at hattentive
    cases hattentive
  unfold tryConnect
  dsimp only
  split
  · exact h.of_neutral (le_refl _) (fun _ hb => hb.ensureNetworkInfo) rfl (hno _)
      ⟨[.ensured _], by simp [isBlock, isConnection], rfl⟩
  · exact h.of_neutral (le_refl _) (fun _ hb => hb.ensureNetworkInfo) rfl (hno _)
      ⟨[.called _ _, .ensured _], by simp [isBlock, isConnection], rfl⟩

theorem inv_deliver {w : World} {event : NetworkEvent} (h : Inv w) :
    Inv { w with
      connectionBits := w.connectionBits.set event.id
      handler := .idle
      log := .delivered event :: w.log } := by
  obtain ⟨id, ssid⟩ := event
  cases id with
  | dropped =>
      exact h.of_neutral (le_refl _) (fun _ hb => hb) rfl (fun _ => rfl)
        ⟨[.delivered _], by simp [isBlock, isConnection], rfl⟩
  | left =>
      exact h.of_neutral (le_refl _) (fun _ hb => hb) rfl (fun _ => rfl)
        ⟨[.delivered _], by simp [isBlock, isConnection], rfl⟩
  | connected =>
      intro _
      exact .inr (.inl (.inl rfl))

theorem inv_wake {w : World} {answer : Answer} (h : Inv w)
    (hheard : ConnectedHeard w (.manager answer)) (hmanager : w.manager = .waiting) :
    Inv ((World.note { w with connectionBits := .none } [.woke w.connectionBits]).goto
      (.woken w.connectionBits)) := by
  intro hconnected
  have hlog : ConnectedSinceBlock ([.woke w.connectionBits] ++ w.log) := hconnected
  have hconnected' := hlog.of_append (by simp [isBlock, isConnection])
  rcases h hconnected' with hunblocked | (hbit | ⟨bits, hwoken, _⟩) | hleaving
  · exact .inl hunblocked
  · cases hdropped : w.connectionBits.dropped with
    | true => exact .inl (hheard ⟨rfl, by rw [hmanager]; rfl, hdropped, hbit⟩)
    | false => exact .inr (.inl (.inr ⟨_, rfl, hdropped, hbit⟩))
  · rw [hmanager] at hwoken
    cases hwoken
  · rw [hmanager] at hleaving
    cases hleaving

theorem inv_step {w w' : World} {l : Label} (h : Inv w) (hheard : ConnectedHeard w l)
    (hmove : Move w l w') : Inv w' := by
  cases hmove with
  | aside haside =>
      obtain ⟨actions, hconsole, hlog⟩ := haside.log
      refine h.of_neutral haside.now ?_ ?_ (fun _ => haside.manager) ⟨actions, ?_, hlog⟩
      · rw [haside.history]
        exact fun _ hb => hb
      · rw [haside.connectionBits]
      · intro a ha
        have hbyConsole := hconsole a ha
        cases a <;> first | exact ⟨rfl, rfl⟩ | cases hbyConsole
  | announce =>
      exact h.of_neutral (le_refl _) (fun _ hb => hb) rfl (fun _ => rfl)
        ⟨[.announced _], by simp [isBlock, isConnection], rfl⟩
  | deliver => exact inv_deliver h
  | wake hmanager => exact inv_wake h hheard hmanager
  | handleBits hmanager => exact inv_handleBits h hmanager
  | roam wifi hroaming =>
      refine h.of_neutral (le_refl _) (fun _ hb => hb) rfl ?_ ⟨[], by simp, rfl⟩
      intro hattentive
      rw [attentive_of_roaming hroaming] at hattentive
      cases hattentive
  | tryConnect hmanager => exact inv_tryConnect h hmanager
  | connect hmanager hstep =>
      refine h.of_neutral (le_refl _) (fun _ hb => hb) rfl ?_ ⟨_, ?_, rfl⟩
      · intro hattentive
        rw [hmanager] at hattentive
        cases hattentive
      · intro a ha
        obtain rfl | ⟨ssid, didConnect, rfl⟩ := connectStep_actions hstep a ha
        · exact ⟨rfl, rfl⟩
        · exact ⟨rfl, rfl⟩
  | connected hmanager =>
      refine h.of_neutral (le_refl _) (fun _ hb => hb) rfl ?_ ⟨[], by simp, rfl⟩
      intro hattentive
      rw [hmanager] at hattentive
      cases hattentive
  | failed hmanager =>
      intro hconnected
      exact absurd hconnected (not_happenedSince_cons rfl)
  | comparePrev _ hcompares => exact inv_compares hcompares
  | blockLeft =>
      intro hconnected
      exact absurd hconnected (not_happenedSince_cons rfl)

theorem inv_reachable {savedNetworks : WifiSavedNetworkInfo} {w : World}
    (h : Reachable (FiresWhen ConnectedHeard step) (start savedNetworks) w) : Inv w :=
  h.invariant (inv_start savedNetworks) fun _ _ _ hinv hfire =>
    inv_step hinv hfire.1 (step_move hfire.2)

/-! ## The contract -/

/-- In every run in which no CONNECTED bit is cleared unread while a network is
blocked, a connection has the list of blocked networks cleared. -/
theorem blockList_cleared {savedNetworks : WifiSavedNetworkInfo} {w : World}
    (h : Reachable (FiresWhen ConnectedHeard step) (start savedNetworks) w) :
    BlockListCleared w := by
  intro hmanager hbits hconnected
  rcases inv_reachable h hconnected with hunblocked | (hbit | ⟨bits, hwoken, _⟩) | hleaving
  · exact hunblocked
  · rw [hbits] at hbit
    cases hbit
  · rw [hwoken] at hmanager
    cases hmanager
  · rw [not_leaving_of_isWaiting hmanager] at hleaving
    cases hleaving

/-- A network is tried and blocked, DROPPED is heard, and then the user connects:
the manager wakes up to CONNECTED alone. -/
theorem blockList_cleared_connected :
    ∃ w : World, w.log.any isBlock = true ∧ ConnectedSinceBlock w.log ∧
      w.history.Unblocked w.now := by
  have hrun : (exec (guarded ConnectedHeard step) (start (saved [home]))
      (scanned [home] [home] ++ byManager 7 ++ [.manager .refused] ++ byManager 3 ++
        [.tick 30000000] ++ userConnects cafe ++ byManager 4)).any
      (fun w => isWaiting w.manager && w.connectionBits = .none &&
        decide (ConnectedSinceBlock w.log) && w.log.any isBlock) = true := by
    decide
  obtain ⟨w, hw, hp⟩ := exists_reachable_of_exec hrun
  simp only [Bool.and_eq_true, decide_eq_true_eq] at hp
  obtain ⟨⟨⟨hwaiting, hbits⟩, hconnected⟩, hblocked⟩ := hp
  exact ⟨w, hblocked, hconnected, blockList_cleared hw.of_guarded hwaiting hbits hconnected⟩

/-- The first attempt to connect fails with DROPPED, the network is blocked, and
while the manager sleeps the user connects elsewhere.  The manager wakes up to
both bits, sees a connection and leaves the list as it is. -/
theorem blockList_kept :
    ∃ w, Reachable (Fires step) (start (saved [home])) w ∧ ¬ BlockListCleared w := by
  have hrun : (exec step (start (saved [home]))
      (scanned [home] [home] ++ byManager 8 ++ lost home .other ++ byManager 4 ++
        [.manager .refused] ++ byManager 3 ++ handled 1 ++ userConnects cafe ++
        [.tick 30000000] ++ byManager 4)).any
      (fun w => decide (¬ BlockListCleared w)) = true := by
    decide
  obtain ⟨w, hw, hp⟩ := exists_reachable_of_exec hrun
  exact ⟨w, hw, of_decide_eq_true hp⟩

end GbPlay.Esp.Network.BlockList
