import GbPlay.Esp.Network.Lock
import GbPlay.Library.Histories

/-!
# Why networks are blocked

The manager blocks a network that it could not connect to or that the user has
left.  It takes "already connected" for a failure, and it takes the network that
was announced last for the one that was left, even if that is announced while it
looks for the entry.
-/

namespace GbPlay.Esp.Network.Causes

open GbPlay.Library
open GbPlay.Library.Runs
open GbPlay.Library.Histories
open GbPlay.Esp.SavedNetworks
open GbPlay.Esp.Network.History
open GbPlay.Esp.Network.Model
open GbPlay.Esp.Network.Moves
open GbPlay.Esp.Network.Lock

def isWake : Action → Bool
  | .woke _ => true
  | _ => false

def isEnsured : Action → Bool
  | .ensured _ => true
  | _ => false

/-- The manager's last call of `wifi_connect` has made an attempt that did not
connect to the network. -/
def Tried (ssid : CString) (past : List Action) : Prop :=
  .attempted .manager ssid false ∈ since isCall past

/-- The manager's last call of `wifi_connect` has found another connection. -/
def GaveUp (past : List Action) : Prop := .foundConnected .manager ∈ since isCall past

/-- The network that a LEFT event ended. -/
def leftNetwork : Action → Option CString
  | .delivered ⟨.left, ssid⟩ => some ssid.name
  | _ => none

/-- The networks ended by the LEFT events that the manager has woken up to. -/
def leftNetworks (past : List Action) : List CString :=
  (since isWake (before isWake past)).filterMap leftNetwork

/-- The network of the CONNECTED event delivered last. -/
def lastAnnounced : List Action → CString
  | [] => .empty
  | .announced ssid :: _ => ssid
  | _ :: past => lastAnnounced past

/-- The network of the CONNECTED event that had been delivered last when
`_ensure_network_info` found or made an entry. -/
def entryNetwork (past : List Action) : CString := lastAnnounced (before isEnsured past)

def blockOf : Action → Option (CString × Cause)
  | .blocked ssid cause _ => some (ssid, cause)
  | _ => none

/-- What has to have happened when a network is blocked. -/
def HasCause (past : List Action) : CString × Cause → Prop
  | (ssid, .failed) => Tried ssid past
  | (ssid, .left) => ssid ∈ leftNetworks past

/-- A network is blocked only after a failed attempt to connect to it, or when it
is the one that the LEFT event being handled has ended. -/
def Justified (a : Action) (past : List Action) : Prop :=
  ∀ b ∈ blockOf a, HasCause past b

/-- `wifi_connect` did not find another connection, and the SSID is short enough
for the driver's configuration to hold it with its terminator; for LEFT, the user
had not been connected to another network since, when the entry was found or made. -/
def Unhindered (past : List Action) : CString × Cause → Prop
  | (ssid, .failed) => ssid.length < wifiMaxSsidLength ∧ ¬ GaveUp past
  | (_, .left) => entryNetwork past ∈ leftNetworks past

def BlocksUnhindered (a : Action) (past : List Action) : Prop :=
  ∀ b ∈ blockOf a, Unhindered past b

instance : ∀ past b, Decidable (HasCause past b)
  | past, (_, .failed) => inferInstanceAs (Decidable (_ ∈ since isCall past))
  | past, (ssid, .left) => inferInstanceAs (Decidable (ssid ∈ leftNetworks past))

instance : ∀ past b, Decidable (Unhindered past b)
  | past, (_, .failed) => inferInstanceAs (Decidable (_ ∧ _ ∉ since isCall past))
  | past, (_, .left) => inferInstanceAs (Decidable (_ ∈ leftNetworks past))

instance (a : Action) (past : List Action) : Decidable (Justified a past) :=
  inferInstanceAs (Decidable (∀ b ∈ blockOf a, HasCause past b))

instance (a : Action) (past : List Action) : Decidable (BlocksUnhindered a past) :=
  inferInstanceAs (Decidable (∀ b ∈ blockOf a, Unhindered past b))

/-! ## Actions that are no part of it -/

def isAnnounced : Action → Bool
  | .announced _ => true
  | _ => false

/-- A step of a call of `wifi_connect` by the manager. -/
def inCall : Action → Bool
  | .foundConnected .manager => true
  | .attempted .manager _ _ => true
  | _ => false

/-- The two properties agree on every block. -/
def Agree (a : Action) (past : List Action) : Prop :=
  Justified a past ↔ BlocksUnhindered a past

theorem agree_of_blockOf {a : Action} (h : blockOf a = none) (past : List Action) :
    Agree a past := by
  simp [Agree, Justified, BlocksUnhindered, h]

theorem lastAnnounced_append {actions log : List Action}
    (h : ∀ a ∈ actions, isAnnounced a = false) :
    lastAnnounced (actions ++ log) = lastAnnounced log := by
  induction actions with
  | nil => rfl
  | cons a actions ih =>
      have ha : isAnnounced a = false := h a List.mem_cons_self
      rw [← ih fun b hb => h b (List.mem_cons_of_mem a hb)]
      cases a <;> first | rfl | cases ha

/-- An action that changes neither what the call has done nor what entry was found. -/
def Outer (a : Action) : Prop := (isCall a = false ∧ inCall a = false) ∧ isEnsured a = false

section Outside

variable {actions log : List Action} {ssid : CString}

/-- Outside the manager's call nothing changes what the call has done. -/
theorem tried_append (hcall : ∀ a ∈ actions, isCall a = false)
    (hactions : ∀ a ∈ actions, inCall a = false) :
    Tried ssid (actions ++ log) ↔ Tried ssid log := by
  apply mem_since_append hcall
  intro hmem
  cases hactions _ hmem

theorem gaveUp_append (hcall : ∀ a ∈ actions, isCall a = false)
    (hactions : ∀ a ∈ actions, inCall a = false) : GaveUp (actions ++ log) ↔ GaveUp log := by
  apply mem_since_append hcall
  intro hmem
  cases hactions _ hmem

end Outside

/-! ## The call of `wifi_connect` -/

/-- What the call has done so far to connect to the network: it gives up at the
check or not at all, it tries what the driver is configured for, and every attempt
that did not connect is followed by another or by a failure. -/
def Phase (ssid : CString) (cfg : StaConfig) (log : List Action) : Connect → Prop
  | .takeLock | .check => ¬ Tried ssid log ∧ ¬ GaveUp log
  | .disconnect _ _ | .clearBits _ | .start _ | .waitBits _ =>
      (Tried ssid log → cfg.ssid.str = ssid) ∧ ¬ GaveUp log
  | .giveLock didConnect | .returned didConnect =>
      didConnect = false → (Tried ssid log ↔ cfg.ssid.str = ssid ∧ ¬ GaveUp log)

section Phase

variable {ssid : CString} {cfg : StaConfig} {log log' actions : List Action} {answer : Answer}
  {s s' : Wifi} {pc pc' : Connect}

theorem phase_congr (pc : Connect) (htried : Tried ssid log' ↔ Tried ssid log)
    (hgaveUp : GaveUp log' ↔ GaveUp log) (h : Phase ssid cfg log pc) :
    Phase ssid cfg log' pc := by
  cases pc <;> simp only [Phase, htried, hgaveUp] at h ⊢ <;> exact h

theorem tried_attempted {ssid' : CString} :
    Tried ssid (.attempted .manager ssid' false :: log) ↔ ssid' = ssid ∨ Tried ssid log := by
  rw [Tried, since_cons_of_neg rfl]
  simp [eq_comm, Tried]

theorem gaveUp_attempted {didConnect : Bool} :
    GaveUp (.attempted .manager ssid didConnect :: log) ↔ GaveUp log :=
  mem_since_cons_of_ne rfl (by simp)

theorem gaveUp_foundConnected : GaveUp (.foundConnected .manager :: log) :=
  mem_since_cons_self rfl

theorem tried_foundConnected : Tried ssid (.foundConnected .manager :: log) ↔ Tried ssid log :=
  mem_since_cons_of_ne rfl (by simp)

/-- After an attempt that did not connect. -/
theorem attempted_iff (h : (Tried ssid log → cfg.ssid.str = ssid) ∧ ¬ GaveUp log) :
    (Tried ssid (.attempted .manager cfg.ssid.str false :: log) ↔ cfg.ssid.str = ssid) ∧
      ¬ GaveUp (.attempted .manager cfg.ssid.str false :: log) := by
  refine ⟨?_, gaveUp_attempted.not.mpr h.2⟩
  rw [tried_attempted]
  exact or_iff_left_of_imp h.1

theorem phase_nextAttempt {i : Nat} (h : (Tried ssid log → cfg.ssid.str = ssid) ∧ ¬ GaveUp log) :
    Phase ssid cfg (.attempted .manager cfg.ssid.str false :: log) (nextAttempt i) := by
  obtain ⟨htried, hgaveUp⟩ := attempted_iff h
  unfold nextAttempt
  split
  · exact ⟨htried.mp, hgaveUp⟩
  · intro _
    exact htried.trans (and_iff_left hgaveUp).symm

theorem phase_step (h : Phase ssid cfg log pc) (hconfig : configured pc = true → s.config = cfg)
    (hstep : connectStep .manager false cfg answer s pc = some (s', actions, pc')) :
    Phase ssid cfg (actions ++ log) pc' := by
  cases pc with
  | takeLock =>
      simp only [connectStep] at hstep
      split at hstep <;> cases hstep
      exact h
  | check =>
      simp only [connectStep] at hstep
      split at hstep <;> cases hstep
      · -- connected already: no attempt is made
        intro _
        apply iff_of_false (tried_foundConnected.not.mpr h.1)
        intro hno
        exact hno.2 gaveUp_foundConnected
      · exact ⟨fun htried => absurd htried h.1, h.2⟩
  | disconnect i pc =>
      simp only [connectStep] at hstep
      split at hstep <;> cases hstep <;> exact h
  | clearBits i =>
      cases hstep
      exact h
  | start i =>
      have hcfg : s.config = cfg := hconfig rfl
      simp only [connectStep, hcfg] at hstep
      split at hstep <;> cases hstep
      · -- refused by the driver
        obtain ⟨htried, hgaveUp⟩ := attempted_iff h
        intro _
        exact htried.trans (and_iff_left hgaveUp).symm
      · exact h
  | waitBits i =>
      have hcfg : s.config = cfg := hconfig rfl
      simp only [connectStep, hcfg] at hstep
      split at hstep
      · cases hstep
        cases hconnected : s.bits.connected with
        | true =>
            intro htrue
            cases htrue
        | false => exact phase_nextAttempt h
      · split at hstep <;> cases hstep
        exact phase_nextAttempt h
  | giveLock didConnect =>
      cases hstep
      exact h
  | returned didConnect => cases hstep

end Phase

/-! ## The invariant -/

/-- What the manager is about to use. -/
def Ready (w : World) : Prop :=
  match w.manager with
  | .getSavedNetwork savedNetworks _ => savedNetworks.Terminated
  | .tryConnect creds _ => creds.Terminated
  | .blockNetwork info => (w.history.usedNetworks info).ssid.str = entryNetwork w.log
  | .connecting info creds _ pc =>
      (w.history.usedNetworks info).ssid.str = creds.ssid.str ∧
        Phase creds.ssid.str (.cfg creds.ssid.str creds.pass.str) w.log pc
  | _ => True

structure Inv (w : World) : Prop where
  terminated : w.savedNetworks.Terminated
  prevTerminated : w.history.prevSsid.Terminated
  prev : w.history.prevSsid.str = lastAnnounced w.log
  ready : Ready w
  blocks : Always Agree w.log

theorem inv_start {savedNetworks : WifiSavedNetworkInfo} (h : savedNetworks.Terminated) :
    Inv (start savedNetworks) :=
  ⟨h, CharArray.terminated_zero _, CharArray.str_zero _, trivial, trivial⟩

theorem always_agree_append {actions log : List Action} (h : ∀ a ∈ actions, blockOf a = none)
    (hlog : Always Agree log) : Always Agree (actions ++ log) :=
  hlog.append fun a ha => agree_of_blockOf (h a ha)

/-- Actions that block, announce and call nothing. -/
def Neutral (actions : List Action) : Prop :=
  ∀ a ∈ actions, blockOf a = none ∧ isAnnounced a = false ∧ isCall a = false

/-- A step that leaves the history alone and does nothing of note keeps the
invariant if the manager is ready for what comes next. -/
theorem Inv.of_neutral {w w' : World} (h : Inv w)
    (hterminated : w.savedNetworks.Terminated → w'.savedNetworks.Terminated)
    (hhistory : w'.history = w.history)
    (hlog : ∃ actions, Neutral actions ∧ w'.log = actions ++ w.log) (hready : Ready w') :
    Inv w' := by
  obtain ⟨actions, hneutral, heq⟩ := hlog
  refine ⟨hterminated h.terminated, ?_, ?_, hready, ?_⟩
  · rw [hhistory]
    exact h.prevTerminated
  · rw [hhistory, heq, lastAnnounced_append fun a ha => (hneutral a ha).2.1]
    exact h.prev
  · rw [heq]
    exact always_agree_append (fun a ha => (hneutral a ha).1) h.blocks

/-- What happens outside the manager's call keeps it ready. -/
theorem ready_outside {w w' : World} (h : Ready w) (hmanager : w'.manager = w.manager)
    (husedNetworks : w'.history.usedNetworks = w.history.usedNetworks)
    (hlog : ∃ actions, (∀ a ∈ actions, Outer a) ∧ w'.log = actions ++ w.log) : Ready w' := by
  obtain ⟨actions, hactions, heq⟩ := hlog
  have hcall : ∀ a ∈ actions, isCall a = false := fun a ha => (hactions a ha).1.1
  have hin : ∀ a ∈ actions, inCall a = false := fun a ha => (hactions a ha).1.2
  unfold Ready at h ⊢
  rw [hmanager, husedNetworks, heq]
  cases hm : w.manager with
  | tryConnect creds next =>
      rw [hm] at h
      exact h
  | connecting info creds next pc =>
      rw [hm] at h
      exact ⟨h.1, phase_congr pc (tried_append hcall hin) (gaveUp_append hcall hin) h.2⟩
  | getSavedNetwork savedNetworks i =>
      rw [hm] at h
      exact h
  | blockNetwork info =>
      rw [hm] at h
      dsimp only at h ⊢
      rw [entryNetwork, before_append fun a ha => (hactions a ha).2]
      exact h
  | waiting | woken bits | reconnect | tryConnectPrev | scan | scanning | tryAutoconnect aps
  | sleeping wakeAt | ensureNetworkInfo i => trivial

theorem ready_next {w : World} (next : Next) : Ready (w.goto next.manager) := by
  cases next <;> trivial

/-! ## Blocks -/

/-- The entry that is found or made is for the network announced last. -/
theorem inv_compares {w w' : World} {i : Nat} (h : Inv w) (hcompares : Compares w i w') :
    Inv w' := by
  have hnew : entryNetwork (.ensured w.history.prevSsid.str :: w.log) = lastAnnounced w.log :=
    congrArg lastAnnounced (before_cons_of_pos rfl)
  have hlen : w.history.prevSsid.str.length ≤ wifiMaxSsidLength :=
    Nat.le_of_lt_succ h.prevTerminated.length_str_lt
  cases hcompares with
  | passed => exact h.of_neutral id rfl ⟨[], by simp [Neutral], rfl⟩ trivial
  | found hi hfound =>
      refine ⟨h.terminated, h.prevTerminated, h.prev, ?_, agree_of_blockOf rfl _, h.blocks⟩
      show (w.history.usedNetworks ⟨i, hi⟩).ssid.str =
        entryNetwork (.ensured w.history.prevSsid.str :: w.log)
      rw [hnew, hfound]
      exact h.prev
  | inserted =>
      refine ⟨h.terminated, h.prevTerminated, h.prev, ?_, agree_of_blockOf rfl _, h.blocks⟩
      show ((w.history.insertNetworkInfo w.history.prevSsid.str).1.usedNetworks
        (w.history.insertNetworkInfo w.history.prevSsid.str).2).ssid.str =
          entryNetwork (.ensured w.history.prevSsid.str :: w.log)
      rw [hnew, NetworkHistory.str_insertNetworkInfo hlen]
      exact h.prev

theorem inv_blockLeft {w : World} {info : Fin networkHistorySize} (h : Inv w)
    (hmanager : w.manager = .blockNetwork info) : Inv ((block w info .left).goto .waiting) := by
  have hentry := h.ready
  rw [Ready, hmanager] at hentry
  refine ⟨h.terminated, h.prevTerminated, h.prev, trivial, ?_, h.blocks⟩
  simp only [Agree, Justified, BlocksUnhindered, blockOf, Option.mem_some_iff, forall_eq',
    HasCause, Unhindered, hentry]
  rfl

theorem inv_failed {w : World} {info : Fin networkHistorySize} {creds : WifiNetworkCredentials}
    {next : Next} (h : Inv w)
    (hmanager : w.manager = .connecting info creds next (.returned false)) :
    Inv ((block w info .failed).goto next.manager) := by
  have hready := h.ready
  rw [Ready, hmanager] at hready
  obtain ⟨hentry, hphase⟩ := hready
  refine ⟨h.terminated, h.prevTerminated, h.prev, ready_next next, ?_, h.blocks⟩
  simp only [Agree, Justified, BlocksUnhindered, blockOf, Option.mem_some_iff, forall_eq',
    HasCause, Unhindered, hentry]
  rw [← StaConfig.str_cfg_ssid]
  exact hphase rfl

theorem inv_handleBits {w : World} {bits : EventBits} (h : Inv w) :
    Inv (handleBits w bits) := by
  unfold handleBits
  split
  · split <;> exact h.of_neutral id rfl ⟨[], by simp [Neutral], rfl⟩ trivial
  · split
    · exact h.of_neutral id rfl ⟨[], by simp [Neutral], rfl⟩ trivial
    · split
      · exact ⟨h.terminated, h.prevTerminated, h.prev, trivial, agree_of_blockOf rfl _, h.blocks⟩
      · exact h.of_neutral id rfl ⟨[], by simp [Neutral], rfl⟩ trivial

theorem inv_tryConnect {w : World} {creds : WifiNetworkCredentials} {next : Next} (h : Inv w)
    (hmanager : w.manager = .tryConnect creds next) : Inv (tryConnect w creds next) := by
  have hcreds := h.ready
  rw [Ready, hmanager] at hcreds
  have hlimits := hcreds.withinLimits
  have hprev : (w.history.ensureNetworkInfo creds.ssid.str).1.prevSsid = w.history.prevSsid :=
    NetworkHistory.prevSsid_ensureNetworkInfo
  have hprevTerminated :
      (w.history.ensureNetworkInfo creds.ssid.str).1.prevSsid.Terminated := by
    rw [hprev]
    exact h.prevTerminated
  have hlast :
      (w.history.ensureNetworkInfo creds.ssid.str).1.prevSsid.str = lastAnnounced w.log := by
    rw [hprev]
    exact h.prev
  unfold tryConnect
  dsimp only
  split
  · exact ⟨h.terminated, hprevTerminated, hlast, ready_next next, agree_of_blockOf rfl _, h.blocks⟩
  · refine ⟨h.terminated, hprevTerminated, hlast, ?_, agree_of_blockOf rfl _,
      agree_of_blockOf rfl _, h.blocks⟩
    refine ⟨NetworkHistory.str_ensureNetworkInfo hlimits.1, ?_⟩
    -- the saved credentials fit, so the call goes on to the lock
    rw [wifiConnect, if_pos hlimits]
    have hnew (past : List Action) (b : Action) :
        b ∉ since isCall (.called creds.ssid.str w.now :: past) := by
      rw [since_cons_of_pos rfl]
      exact List.not_mem_nil
    exact ⟨hnew _ _, hnew _ _⟩

/-! ## Steps and runs -/

theorem readable_terminated {w : World} {savedNetworks : WifiSavedNetworkInfo} (h : Inv w)
    (hreadable : Readable w savedNetworks) : savedNetworks.Terminated := by
  rcases hreadable with rfl | hsearched
  · exact h.terminated
  · have hready := h.ready
    cases hm : w.manager with
    | getSavedNetwork t i =>
        rw [Ready, hm] at hready
        rw [hm] at hsearched
        cases hsearched
        exact hready
    | _ =>
        rw [hm] at hsearched
        cases hsearched

theorem ready_roams {w : World} {m : Manager} {wifi : Wifi} (h : Inv w) (hm : Roams w m) :
    Ready (World.goto { w with wifi } m) := by
  cases hm with
  | waiting => trivial
  | roaming hroaming hsearched =>
      cases m with
      | getSavedNetwork t i => exact readable_terminated h (hsearched t rfl)
      | connecting | tryConnect | blockNetwork => cases hroaming
      | _ => trivial
  | tryConnect i hreadable => exact readable_terminated h hreadable i

theorem inv_step {w w' : World} {l : Label} (h : Inv w) (hlocked : Locked w)
    (hmove : Move w l w') : Inv w' := by
  cases hmove with
  | aside haside =>
      obtain ⟨actions, hconsole, hlog⟩ := haside.log
      refine h.of_neutral haside.terminated haside.history ⟨actions, ?_, hlog⟩ ?_
      · intro a ha
        have hbyConsole := hconsole a ha
        cases a <;> first | exact ⟨rfl, rfl, rfl⟩ | cases hbyConsole
      · refine ready_outside h.ready haside.manager (by rw [haside.history]) ⟨actions, ?_, hlog⟩
        intro a ha
        have hbyConsole := hconsole a ha
        unfold byConsole at hbyConsole
        split at hbyConsole <;> first | exact ⟨⟨rfl, rfl⟩, rfl⟩ | cases hbyConsole
  | announce =>
      rename_i event _
      refine ⟨h.terminated, NetworkHistory.terminated_prevSsid_setPrevSsid,
        NetworkHistory.str_prevSsid_setPrevSsid event.ssid.fits, ?_, agree_of_blockOf rfl _,
        h.blocks⟩
      exact ready_outside h.ready rfl rfl
        ⟨[.announced _], by simp [Outer, isCall, inCall, isEnsured], rfl⟩
  | deliver =>
      refine h.of_neutral id rfl
        ⟨[.delivered _], by simp [Neutral, blockOf, isAnnounced, isCall], rfl⟩ ?_
      exact ready_outside h.ready rfl rfl
        ⟨[.delivered _], by simp [Outer, isCall, inCall, isEnsured], rfl⟩
  | wake =>
      exact h.of_neutral id rfl
        ⟨[.woke _], by simp [Neutral, blockOf, isAnnounced, isCall], rfl⟩ trivial
  | handleBits => exact inv_handleBits h
  | roam wifi hroaming hm =>
      exact h.of_neutral id rfl ⟨[], by simp [Neutral], rfl⟩ (ready_roams h hm)
  | tryConnect hmanager => exact inv_tryConnect h hmanager
  | connect hmanager hstep =>
      have hready := h.ready
      rw [Ready, hmanager] at hready
      refine h.of_neutral id rfl ⟨_, ?_, rfl⟩ ⟨hready.1, ?_⟩
      · intro a ha
        obtain rfl | ⟨ssid, didConnect, rfl⟩ := connectStep_actions hstep a ha
        · exact ⟨rfl, rfl, rfl⟩
        · exact ⟨rfl, rfl, rfl⟩
      · exact phase_step hready.2 (hlocked.config _ _ _ _ hmanager) hstep
  | connected => exact h.of_neutral id rfl ⟨[], by simp [Neutral], rfl⟩ trivial
  | failed hmanager => exact inv_failed h hmanager
  | comparePrev _ hcompares => exact inv_compares h hcompares
  | blockLeft hmanager => exact inv_blockLeft h hmanager

theorem inv_reachable {savedNetworks : WifiSavedNetworkInfo} {w : World}
    (hsaved : savedNetworks.Terminated)
    (h : Reachable (Fires step) (start savedNetworks) w) : Inv w := by
  have hboth : Locked w ∧ Inv w := by
    refine h.invariant (I := fun w => Locked w ∧ Inv w)
      ⟨locked_start savedNetworks, inv_start hsaved⟩ ?_
    intro w l w' hinv hfire
    have hmove := step_move hfire
    exact ⟨locked_step hinv.1 hmove, inv_step hinv.2 hinv.1 hmove⟩
  exact hboth.2

/-! ## The contract -/

/-- In every run, all blocks have a cause if and only if, whenever the manager
blocked a network, `wifi_connect` had not found another connection and was not given
an SSID of full length, and, when the entry was found or made for LEFT, the user had not
been connected to another network since leaving the one that LEFT is about. -/
theorem justified_iff_unhindered {savedNetworks : WifiSavedNetworkInfo} {w : World}
    (hsaved : savedNetworks.Terminated)
    (h : Reachable (Fires step) (start savedNetworks) w) :
    Always Justified w.log ↔ Always BlocksUnhindered w.log :=
  (inv_reachable hsaved h).blocks.congr

/-- The manager tries one network in vain, and the user connects to another and
leaves it: both are blocked for a reason. -/
theorem justified_iff_unhindered_both :
    ∃ w : World, w.log.filterMap blockOf = [(cafe.name, .left), (home.name, .failed)] ∧
      Always Justified w.log := by
  have hrun : (exec step (start (saved [home]))
      (scanned [home] [home] ++ byManager 7 ++ [.manager .refused] ++ byManager 3 ++
        userConnects cafe ++ [.tick 30000000] ++ byManager 4 ++ userDisconnects cafe ++
        handlesLeft)).any
      (fun w => decide (w.log.filterMap blockOf = [(cafe.name, .left), (home.name, .failed)]) &&
        decide (Always BlocksUnhindered w.log)) = true := by
    decide
  obtain ⟨w, hw, hp⟩ := exists_reachable_of_exec hrun
  rw [Bool.and_eq_true, decide_eq_true_eq, decide_eq_true_eq] at hp
  exact ⟨w, hp.1, (justified_iff_unhindered (terminated_saved _) hw).mpr hp.2⟩

/-- A network with a name of full length. -/
def station : Ssid where
  name := ⟨List.replicate wifiMaxSsidLength 115, by simp⟩
  fits := List.length_replicate.le

/-- While the manager waits for the lock to try one network, the user connects
to another: the manager blocks the network it has not tried.  When the user has
switched networks while the manager slept, LEFT blocks the new one.  And a network
with a name of full length is blocked after attempts to connect to another name. -/
theorem blocked_without_cause :
    (∃ w, Reachable (Fires step) (start (saved [home])) w ∧
      w.log.filterMap blockOf = [(home.name, .failed)] ∧ ¬ Always Justified w.log) ∧
    (∃ w, Reachable (Fires step) (start (saved [])) w ∧
      w.log.filterMap blockOf = [(home.name, .left)] ∧ ¬ Always Justified w.log) ∧
    ∃ w, Reachable (Fires step) (start (saved [station])) w ∧
      w.log.filterMap blockOf = [(station.name, .failed)] ∧ ¬ Always Justified w.log := by
  have huntried : (exec step (start (saved [home]))
      (scanned [home] [home] ++ byManager 1 ++ [.command (.connect cafe.name cafe.name false)] ++
        byUser 1 ++ byManager 1 ++ byUser 5 ++ gotIp cafe ++ byUser 3 ++ byManager 4)).any
      (fun w => decide (w.log.filterMap blockOf = [(home.name, .failed)]) &&
        decide (¬ Always Justified w.log)) = true := by
    decide
  have hswitched : (exec step (start (saved []))
      (scanned [] [] ++ byManager 1 ++ userConnects cafe ++
        [.command (.connect home.name home.name false)] ++ byUser 4 ++ lost cafe .assocLeave ++
        byUser 3 ++ handled 1 ++ gotIp home ++ byUser 3 ++ handled 2 ++ [.tick 30000000] ++
        byManager 2 ++ handlesLeft)).any
      (fun w => decide (w.log.filterMap blockOf = [(home.name, .left)]) &&
        decide (¬ Always Justified w.log)) = true := by
    decide
  have hcut : (exec step (start (saved [station]))
      (scanned [station] [station] ++ byManager 7 ++ [.manager .refused] ++ byManager 2)).any
      (fun w => decide (w.log.filterMap blockOf = [(station.name, .failed)]) &&
        decide (¬ Always Justified w.log)) = true := by
    decide
  obtain ⟨w₁, hw₁, h₁⟩ := exists_reachable_of_exec huntried
  obtain ⟨w₂, hw₂, h₂⟩ := exists_reachable_of_exec hswitched
  obtain ⟨w₃, hw₃, h₃⟩ := exists_reachable_of_exec hcut
  rw [Bool.and_eq_true, decide_eq_true_eq, decide_eq_true_eq] at h₁ h₂ h₃
  exact ⟨⟨w₁, hw₁, h₁⟩, ⟨w₂, hw₂, h₂⟩, w₃, hw₃, h₃⟩

end GbPlay.Esp.Network.Causes
