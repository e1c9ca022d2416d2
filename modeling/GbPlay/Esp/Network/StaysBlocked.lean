import GbPlay.Esp.Network.Causes
import GbPlay.Library.RingBuffer

/-!
# Blocked networks stay blocked

The history is a ring that is searched by SSID, and its unused slots look like
slots of the network without a name.  While it has room for all SSIDs that it
has been asked for, a network keeps its slot, and with it its block.

LEFT has it searched for `prev_ssid`, which the event loop may overwrite meanwhile: when
the search has passed the slot of the new SSID by then, the network gets a second one.
-/

namespace GbPlay.Esp.Network.StaysBlocked

open GbPlay.Library
open GbPlay.Library.Runs
open GbPlay.Library.Histories
open GbPlay.Esp.SavedNetworks
open GbPlay.Esp.Network.History
open GbPlay.Esp.Network.Model
open GbPlay.Esp.Network.Moves

def isClear : Action → Bool
  | .cleared => true
  | _ => false

def ensuredSsid : Action → Option CString
  | .ensured ssid => some ssid
  | _ => none

/-- The SSIDs that `_ensure_network_info` has been given since the history was cleared. -/
def ensured (log : List Action) : Finset CString :=
  ((since isClear log).filterMap ensuredSsid).toFinset

/-- They are not more than the history has slots. -/
def FewNetworks (a : Action) (past : List Action) : Prop :=
  (ensured (a :: past)).card ≤ networkHistorySize

/-- The manager does not call `wifi_connect` for a network that it has blocked in
the last minutes, unless it has cleared the history since. -/
def KeepsBlocks (a : Action) (past : List Action) : Prop :=
  ∀ ssid time, a = .called ssid time → ssid ≠ .empty →
    ∀ cause time', .blocked ssid cause time' ∈ since isClear past →
      time' + networkBlockMinutes * minuteMicroseconds ≤ time

instance (a : Action) (past : List Action) : Decidable (FewNetworks a past) :=
  inferInstanceAs (Decidable (_ ≤ _))

/-- The SSID that a step puts into `prev_ssid` and the entry that the search for
`prev_ssid` has come to. -/
def overwrites (w : World) : Label → Option (CString × Nat)
  | .handler _ =>
      match w.handler, w.manager with
      | .copySsid event, .ensureNetworkInfo i => some (event.ssid.name, i)
      | _, _ => none
  | _ => none

/-- While it is being searched for, `prev_ssid` is not overwritten with an SSID whose entry
the search has passed. -/
def NotPassed (w : World) (l : Label) : Prop :=
  ∀ search ∈ overwrites w l, ∀ j : Fin networkHistorySize, j.val < search.2 →
    (w.history.usedNetworks j).ssid.str ≠ search.1

instance (w : World) (l : Label) : Decidable (NotPassed w l) :=
  inferInstanceAs (Decidable (∀ search ∈ overwrites w l, ∀ j : Fin networkHistorySize,
    j.val < search.2 → (w.history.usedNetworks j).ssid.str ≠ search.1))

/-- At this time the network is not blocked on account of that action. -/
def Expired (ssid : CString) (time : Nat) : Action → Prop
  | .blocked ssid' _ time' =>
      ssid' = ssid → time' + networkBlockMinutes * minuteMicroseconds ≤ time
  | _ => True

instance (ssid : CString) (time : Nat) : DecidablePred (Expired ssid time)
  | .blocked _ _ _ => inferInstanceAs (Decidable (_ → _))
  | .announced _ | .delivered _ | .woke _ | .ensured _ | .called _ _ | .foundConnected _
  | .attempted _ _ _ | .cleared => .isTrue trivial

theorem keepsBlocks_called {ssid : CString} {time : Nat} {past : List Action} :
    (ssid ≠ .empty → ∀ b ∈ since isClear past, Expired ssid time b) ↔
      KeepsBlocks (.called ssid time) past := by
  constructor
  · intro h ssid' time' heq hne cause time'' hmem
    cases heq
    exact h hne _ hmem rfl
  · intro h hne b hmem
    cases b with
    | blocked ssid' cause time' =>
        rintro rfl
        exact h _ _ rfl hne cause time' hmem
    | _ => trivial

instance : ∀ a past, Decidable (KeepsBlocks a past)
  | .called _ _, _ => decidable_of_iff _ keepsBlocks_called
  | .announced _, _ | .delivered _, _ | .woke _, _ | .ensured _, _ | .foundConnected _, _
  | .attempted _ _ _, _ | .blocked _ _ _, _ | .cleared, _ => .isTrue nofun

/-! ## The history as a ring -/

def ring (h : NetworkHistory) : RingBuffer networkHistorySize CString :=
  ⟨fun i => (h.usedNetworks i).ssid.str, h.nextIndex⟩

section Ring

variable {h : NetworkHistory} {ssid : CString}

theorem ring_ensureNetworkInfo (hlen : ssid.length ≤ wifiMaxSsidLength) :
    ring (h.ensureNetworkInfo ssid).1 = ((ring h).ensure ssid).1 := by
  have hfind : h.findNetworkInfo ssid = (ring h).find ssid := rfl
  unfold NetworkHistory.ensureNetworkInfo RingBuffer.ensure
  rw [← hfind]
  cases h.findNetworkInfo ssid with
  | some i => rfl
  | none =>
      apply RingBuffer.ext
      · funext i
        by_cases hi : i = h.nextIndex
        · simp [ring, RingBuffer.insert, NetworkHistory.insertNetworkInfo, hi,
            CharArray.str_truncatedStringCopy_of_length_le hlen]
        · simp [ring, RingBuffer.insert, NetworkHistory.insertNetworkInfo, hi]
      · rfl

/-- A slot that keeps its key keeps its block. -/
theorem usedNetworks_ensureNetworkInfo {i : Fin networkHistorySize}
    (hlen : ssid.length ≤ wifiMaxSsidLength)
    (hkey : (ring (h.ensureNetworkInfo ssid).1).keys i = (ring h).keys i) :
    (h.ensureNetworkInfo ssid).1.usedNetworks i = h.usedNetworks i := by
  unfold NetworkHistory.ensureNetworkInfo NetworkHistory.insertNetworkInfo at hkey ⊢
  cases hfind : h.findNetworkInfo ssid with
  | some j => rfl
  | none =>
      have hne : (ring h).keys i ≠ ssid := RingBuffer.keys_ne_of_find (r := ring h) hfind i
      have hi : i ≠ h.nextIndex := by
        rintro rfl
        simp only [hfind, ring, Function.update_self,
          CharArray.str_truncatedStringCopy_of_length_le hlen] at hkey
        exact hne hkey.symm
      exact Function.update_of_ne hi ..

theorem ring_clearNetworkHistory :
    ring h.clearNetworkHistory = ⟨fun _ => .empty, ⟨0, by decide⟩⟩ := by
  simp [ring, NetworkHistory.clearNetworkHistory, NetworkInfo.zero]

theorem ring_blockNetwork (info : Fin networkHistorySize) (now : Nat) :
    ring (h.blockNetwork info now) = ring h := by
  apply RingBuffer.ext
  · funext i
    by_cases hi : i = info
    · simp [ring, NetworkHistory.blockNetwork, hi]
    · simp [ring, NetworkHistory.blockNetwork, hi]
  · rfl

end Ring

/-! ## The log -/

/-- Actions that the history knows nothing of. -/
def isNeutral : Action → Bool
  | .ensured _ | .called _ _ | .blocked _ _ _ | .cleared => false
  | _ => true

section Log

variable {actions log : List Action} {a : Action}

theorem isNeutral_of_inCall {task : Task} (h : a = .foundConnected task ∨
    ∃ ssid didConnect, a = .attempted task ssid didConnect) : isNeutral a = true := by
  obtain rfl | ⟨ssid, didConnect, rfl⟩ := h
  · rfl
  · rfl

theorem isClear_of_isNeutral (h : isNeutral a = true) : isClear a = false := by
  cases a <;> first | rfl | cases h

theorem ensured_cons (h : isClear a = false) :
    ensured (a :: log) = (ensuredSsid a).elim (ensured log) (insert · (ensured log)) := by
  rw [ensured, since_cons_of_neg h, List.filterMap_cons]
  cases ensuredSsid a with
  | none => rfl
  | some ssid => simp [ensured]

theorem ensured_cleared : ensured (.cleared :: log) = ∅ := by
  simp [ensured, since_cons_of_pos (p := isClear) (a := .cleared) rfl]

theorem ensured_append (h : ∀ a ∈ actions, isNeutral a = true) :
    ensured (actions ++ log) = ensured log := by
  induction actions with
  | nil => rfl
  | cons a actions ih =>
      have ha := h a List.mem_cons_self
      rw [List.cons_append, ensured_cons (isClear_of_isNeutral ha),
        ih fun b hb => h b (List.mem_cons_of_mem a hb)]
      cases a <;> first | rfl | cases ha

theorem blocked_mem_append (h : ∀ a ∈ actions, isNeutral a = true) {ssid : CString}
    {cause : Cause} {time : Nat} :
    .blocked ssid cause time ∈ since isClear (actions ++ log) ↔
      .blocked ssid cause time ∈ since isClear log := by
  apply mem_since_append fun a ha => isClear_of_isNeutral (h a ha)
  intro hmem
  cases h _ hmem

theorem keepsBlocks_of_isNeutral (h : isNeutral a = true) (past : List Action) :
    KeepsBlocks a past := by
  rintro ssid time rfl
  cases h

theorem keepsBlocks_of_ne (h : isCall a = false) (past : List Action) : KeepsBlocks a past := by
  rintro ssid time rfl
  cases h

end Log

/-! ## The invariant -/

structure Inv (w : World) : Prop where
  filled : ∃ k, (ring w.history).Filled .empty (ensured w.log) k
  past : ∀ ssid cause time, .blocked ssid cause time ∈ since isClear w.log → time ≤ w.now
  blocked : ∀ ssid cause time, .blocked ssid cause time ∈ since isClear w.log → ssid ≠ .empty →
    ∃ i, (w.history.usedNetworks i).ssid.str = ssid ∧
      time + networkBlockMinutes * minuteMicroseconds ≤ (w.history.usedNetworks i).blockedUntil
  calls : Always KeepsBlocks w.log

theorem inv_start (savedNetworks : WifiSavedNetworkInfo) : Inv (start savedNetworks) := by
  refine ⟨⟨0, ?_⟩, ?_, ?_, trivial⟩
  · have hring : ring (start savedNetworks).history = ⟨fun _ => .empty, ⟨0, by decide⟩⟩ := by
      simp [ring, start, NetworkHistory.zero, NetworkInfo.zero]
    rw [hring]
    exact RingBuffer.filled_const _ rfl
  · intro ssid cause time hmem
    cases hmem
  · intro ssid cause time hmem
    cases hmem

section Step

variable {w w' : World}

/-- A step that leaves the slots alone and does nothing of note. -/
theorem Inv.of_neutral (h : Inv w) (hnow : w.now ≤ w'.now)
    (hused : w'.history.usedNetworks = w.history.usedNetworks)
    (hnext : w'.history.nextIndex = w.history.nextIndex)
    (hlog : ∃ actions, (∀ a ∈ actions, isNeutral a = true) ∧ w'.log = actions ++ w.log) :
    Inv w' := by
  obtain ⟨actions, hneutral, heq⟩ := hlog
  constructor
  case filled =>
      have hring : ring w'.history = ring w.history := by rw [ring, ring, hused, hnext]
      rw [hring, heq, ensured_append hneutral]
      exact h.filled
  case past =>
      intro ssid cause time hmem
      rw [heq, blocked_mem_append hneutral] at hmem
      exact (h.past ssid cause time hmem).trans hnow
  case blocked =>
      intro ssid cause time hmem
      rw [heq, blocked_mem_append hneutral] at hmem
      rw [hused]
      exact h.blocked ssid cause time hmem
  case calls =>
      rw [heq]
      exact h.calls.append fun a ha => keepsBlocks_of_isNeutral (hneutral a ha)

theorem Inv.goto (h : Inv w) (m : Manager) : Inv (w.goto m) :=
  ⟨h.filled, h.past, h.blocked, h.calls⟩

theorem inv_ensure {ssid : CString} (h : Inv w) (hlen : ssid.length ≤ wifiMaxSsidLength)
    (hfew : FewNetworks (.ensured ssid) w.log) : Inv (ensure w ssid).1 := by
  obtain ⟨k, hfilled⟩ := h.filled
  have hensured : ensured (.ensured ssid :: w.log) = insert ssid (ensured w.log) :=
    ensured_cons rfl
  rw [FewNetworks, hensured] at hfew
  obtain ⟨hfilled', hkeys⟩ := hfilled.ensure hfew
  have hmem (b : CString) (cause : Cause) (time : Nat) :
      .blocked b cause time ∈ since isClear (.ensured ssid :: w.log) ↔
        .blocked b cause time ∈ since isClear w.log :=
    mem_since_cons_of_ne rfl (by simp)
  constructor
  case filled =>
      show ∃ k, (ring (w.history.ensureNetworkInfo ssid).1).Filled .empty
        (ensured (.ensured ssid :: w.log)) k
      rw [ring_ensureNetworkInfo hlen, hensured]
      exact hfilled'
  case past => exact fun b cause time hb => h.past b cause time ((hmem b cause time).mp hb)
  case blocked =>
      intro b cause time hb hne
      obtain ⟨i, hi, hle⟩ := h.blocked b cause time ((hmem b cause time).mp hb) hne
      have hkey : (ring (w.history.ensureNetworkInfo ssid).1).keys i = (ring w.history).keys i := by
        rw [ring_ensureNetworkInfo hlen]
        apply hkeys
        show (w.history.usedNetworks i).ssid.str ≠ .empty
        rw [hi]
        exact hne
      have hsame : (ensure w ssid).1.history.usedNetworks i = w.history.usedNetworks i :=
        usedNetworks_ensureNetworkInfo hlen hkey
      refine ⟨i, ?_, ?_⟩
      · rw [hsame, hi]
      · rw [hsame]
        exact hle
  case calls => exact ⟨keepsBlocks_of_ne rfl _, h.calls⟩

theorem inv_block {info : Fin networkHistorySize} {cause : Cause} (h : Inv w) :
    Inv (block w info cause) := by
  have hensured : ensured (block w info cause).log = ensured w.log := ensured_cons rfl
  have hsplit {b : CString} {cause' : Cause} {time : Nat}
      (hb : .blocked b cause' time ∈ since isClear (block w info cause).log) :
      (b = (w.history.usedNetworks info).ssid.str ∧ time = w.now) ∨
        .blocked b cause' time ∈ since isClear w.log := by
    have hb' : .blocked b cause' time ∈ since isClear
        (.blocked (w.history.usedNetworks info).ssid.str cause w.now :: w.log) := hb
    rw [since_cons_of_neg rfl, List.mem_cons] at hb'
    rcases hb' with heq | hold
    · cases heq
      exact .inl ⟨rfl, rfl⟩
    · exact .inr hold
  constructor
  case filled =>
      rw [hensured]
      show ∃ k, (ring (w.history.blockNetwork info w.now)).Filled .empty (ensured w.log) k
      rw [ring_blockNetwork]
      exact h.filled
  case past =>
      intro b cause' time hb
      rcases hsplit hb with ⟨_, rfl⟩ | hold
      · exact Nat.le_refl _
      · exact h.past b cause' time hold
  case blocked =>
      intro b cause' time hb hne
      have hself : (block w info cause).history.usedNetworks info =
          { w.history.usedNetworks info with
            blockedUntil := w.now + networkBlockMinutes * minuteMicroseconds } :=
        Function.update_self ..
      rcases hsplit hb with ⟨rfl, rfl⟩ | hold
      · exact ⟨info, by rw [hself], by rw [hself]⟩
      · obtain ⟨i, hi, hle⟩ := h.blocked b cause' time hold hne
        by_cases heq : i = info
        · -- blocked once more
          subst heq
          refine ⟨i, by rw [hself]; exact hi, ?_⟩
          rw [hself]
          exact Nat.add_le_add_right (h.past b cause' time hold) _
        · have hother : (block w info cause).history.usedNetworks i = w.history.usedNetworks i :=
            Function.update_of_ne heq ..
          rw [← hother] at hi hle
          exact ⟨i, hi, hle⟩
  case calls => exact ⟨keepsBlocks_of_ne rfl _, h.calls⟩

theorem inv_clear (h : Inv w) :
    Inv (World.note { w with history := w.history.clearNetworkHistory } [.cleared]) := by
  have hnone (b : Action) : b ∉ since isClear (.cleared :: w.log) := by
    rw [since_cons_of_pos rfl]
    exact List.not_mem_nil
  constructor
  case filled =>
      show ∃ k, (ring w.history.clearNetworkHistory).Filled .empty (ensured (.cleared :: w.log)) k
      rw [ring_clearNetworkHistory, ensured_cleared]
      exact ⟨0, RingBuffer.filled_const _ rfl⟩
  case past => exact fun _ _ _ hmem => absurd hmem (hnone _)
  case blocked => exact fun _ _ _ hmem => absurd hmem (hnone _)
  case calls => exact ⟨keepsBlocks_of_ne rfl _, h.calls⟩

/-- The manager calls `wifi_connect` for the network of a slot that is not blocked. -/
theorem inv_called {info : Fin networkHistorySize} (h : Inv w)
    (hfree : (w.history.usedNetworks info).blockedUntil ≤ w.now) :
    Inv (w.note [.called (w.history.usedNetworks info).ssid.str w.now]) := by
  have hmem (b : CString) (cause : Cause) (time : Nat) :
      .blocked b cause time ∈
          since isClear (.called (w.history.usedNetworks info).ssid.str w.now :: w.log) ↔
        .blocked b cause time ∈ since isClear w.log :=
    mem_since_cons_of_ne rfl (by simp)
  constructor
  case filled =>
      obtain ⟨k, hfilled⟩ := h.filled
      have hensured : ensured (w.note [.called (w.history.usedNetworks info).ssid.str w.now]).log =
          ensured w.log := ensured_cons rfl
      rw [hensured]
      exact ⟨k, hfilled⟩
  case past => exact fun b cause time hb => h.past b cause time ((hmem b cause time).mp hb)
  case blocked => exact fun b cause time hb => h.blocked b cause time ((hmem b cause time).mp hb)
  case calls =>
      refine ⟨?_, h.calls⟩
      intro ssid time hcalled hne cause time' hblocked
      cases hcalled
      obtain ⟨i, hi, hle⟩ := h.blocked _ cause time' hblocked hne
      obtain ⟨k, hfilled⟩ := h.filled
      -- no other slot has the name
      have heq : i = info := hfilled.distinct i info hi (by rw [← hi] at hne; exact hne)
      rw [heq] at hle
      exact hle.trans hfree

theorem inv_handleBits {bits : EventBits} (h : Inv w) : Inv (handleBits w bits) := by
  unfold handleBits
  split
  · split <;> exact h.goto _
  · split
    · exact h.goto _
    · split
      · exact (inv_clear h).goto _
      · exact h.goto _

/-- The search for `prev_ssid` has not passed its entry. -/
def Searching (w : World) : Prop :=
  ∀ i, w.manager = .ensureNetworkInfo i → ∀ j : Fin networkHistorySize, j.val < i →
    (w.history.usedNetworks j).ssid.str ≠ w.history.prevSsid.str

/-- Then it goes on, or ends as if `prev_ssid` had been the same all the time. -/
theorem compares_cases {i : Nat} (h : Searching w) (hmanager : w.manager = .ensureNetworkInfo i)
    (hcompares : Compares w i w') :
    (w' = w.goto (.ensureNetworkInfo (i + 1)) ∧ Searching w') ∨
      ∃ info, w' = (ensure w w.history.prevSsid.str).1.goto (.blockNetwork info) := by
  have hbefore := h i hmanager
  cases hcompares with
  | passed hi hpassed =>
      refine .inl ⟨rfl, ?_⟩
      intro i' hmanager' j hj
      cases hmanager'
      by_cases heq : j.val = i
      · have hj' : j = ⟨i, hi⟩ := Fin.ext heq
        rw [hj']
        exact hpassed
      · exact hbefore j (by omega)
  | found hi hfound =>
      have hensure := NetworkHistory.ensureNetworkInfo_of_found
        (fun j hj => hbefore j hj) hfound
      refine .inr ⟨⟨i, hi⟩, ?_⟩
      simp only [ensure, hensure]
  | inserted hi =>
      have hensure := NetworkHistory.ensureNetworkInfo_of_passed
        (fun j => hbefore j (j.isLt.trans_le hi))
      refine .inr ⟨(ensure w w.history.prevSsid.str).2, ?_⟩
      simp only [ensure, hensure]

theorem searching_of_ne (h : ∀ i, w.manager ≠ .ensureNetworkInfo i) : Searching w :=
  fun i hmanager => absurd hmanager (h i)

theorem searching_handleBits {bits : EventBits} : Searching (handleBits w bits) := by
  unfold handleBits
  split
  · split <;> exact searching_of_ne nofun
  · split
    · intro i hmanager j hj
      cases hmanager
      exact absurd hj (Nat.not_lt_zero _)
    · split <;> exact searching_of_ne nofun

theorem searching_step {l : Label} (h : Searching w) (hnotPassed : NotPassed w l)
    (hmove : Move w l w') : Searching w' := by
  cases hmove with
  | aside haside =>
      unfold Searching
      rw [haside.manager, haside.history]
      exact h
  | @announce ap event hhandler =>
      intro i hmanager j hj
      have hmanager' : w.manager = .ensureNetworkInfo i := hmanager
      have hoverwrites : overwrites w (.handler ap) = some (event.ssid.name, i) := by
        simp only [overwrites, hhandler, hmanager']
      show (w.history.usedNetworks j).ssid.str ≠
        (w.history.setPrevSsid event.ssid.name).prevSsid.str
      rw [NetworkHistory.str_prevSsid_setPrevSsid event.ssid.fits]
      exact hnotPassed _ hoverwrites j hj
  | deliver => exact h
  | wake => exact searching_of_ne nofun
  | handleBits => exact searching_handleBits
  | roam wifi _ hm =>
      refine searching_of_ne ?_
      rintro i rfl
      cases hm with
      | roaming hroaming => cases hroaming
  | @tryConnect answer creds next =>
      refine searching_of_ne fun i => ?_
      unfold tryConnect
      dsimp only
      split
      · cases next <;> nofun
      · nofun
  | connect => exact searching_of_ne nofun
  | connected => exact searching_of_ne nofun
  | @failed answer info creds next =>
      refine searching_of_ne fun i => ?_
      cases next <;> nofun
  | comparePrev hmanager hcompares =>
      rcases compares_cases h hmanager hcompares with ⟨_, hsearching⟩ | ⟨info, rfl⟩
      · exact hsearching
      · exact searching_of_ne nofun
  | blockLeft => exact searching_of_ne nofun

theorem inv_tryConnect {creds : WifiNetworkCredentials} {next : Next} (h : Inv w)
    (hcreds : creds.Terminated) (hfew : Always FewNetworks (tryConnect w creds next).log) :
    Inv (tryConnect w creds next) := by
  have hlen := hcreds.withinLimits.1
  have hslot : ((ensure w creds.ssid.str).1.history.usedNetworks
      (ensure w creds.ssid.str).2).ssid.str = creds.ssid.str :=
    NetworkHistory.str_ensureNetworkInfo hlen
  unfold tryConnect at hfew ⊢
  dsimp only at hfew ⊢
  split
  · rename_i hblocked
    rw [if_pos hblocked] at hfew
    exact (inv_ensure h hlen hfew.1).goto _
  · rename_i hfree
    rw [if_neg hfree] at hfew
    have hcalled := inv_called (inv_ensure h hlen hfew.2.1) (Nat.le_of_not_lt hfree)
    rw [hslot] at hcalled
    exact hcalled.goto _

theorem length_prevSsid_le (hwell : Causes.Inv w) :
    w.history.prevSsid.str.length ≤ wifiMaxSsidLength :=
  Nat.le_of_lt_succ hwell.prevTerminated.length_str_lt

theorem inv_step {l : Label} (h : Inv w) (hwell : Causes.Inv w) (hsearching : Searching w)
    (hfew : Always FewNetworks w'.log) (hmove : Move w l w') : Inv w' := by
  cases hmove with
  | aside haside =>
      obtain ⟨actions, hconsole, hlog⟩ := haside.log
      refine h.of_neutral haside.now (by rw [haside.history]) (by rw [haside.history])
        ⟨actions, ?_, hlog⟩
      intro a ha
      have hbyConsole := hconsole a ha
      cases a <;> first | rfl | cases hbyConsole
  | announce =>
      exact h.of_neutral (Nat.le_refl _) rfl rfl ⟨[.announced _], by simp [isNeutral], rfl⟩
  | deliver =>
      exact h.of_neutral (Nat.le_refl _) rfl rfl ⟨[.delivered _], by simp [isNeutral], rfl⟩
  | wake => exact h.of_neutral (Nat.le_refl _) rfl rfl ⟨[.woke _], by simp [isNeutral], rfl⟩
  | handleBits => exact inv_handleBits h
  | roam wifi => exact h.of_neutral (Nat.le_refl _) rfl rfl ⟨[], by simp, rfl⟩
  | tryConnect hmanager =>
      have hcreds := hwell.ready
      rw [Causes.Ready, hmanager] at hcreds
      exact inv_tryConnect h hcreds hfew
  | connect hmanager hstep =>
      refine h.of_neutral (Nat.le_refl _) rfl rfl ⟨_, ?_, rfl⟩
      exact fun a ha => isNeutral_of_inCall (connectStep_actions hstep a ha)
  | connected => exact h.goto _
  | failed => exact (inv_block h).goto _
  | comparePrev hmanager hcompares =>
      rcases compares_cases hsearching hmanager hcompares with ⟨rfl, _⟩ | ⟨info, rfl⟩
      · exact h.goto _
      · exact (inv_ensure h (length_prevSsid_le hwell) hfew.1).goto _
  | blockLeft => exact (inv_block h).goto _

/-! ## Runs -/

theorem log_handleBits (w : World) (bits : EventBits) :
    ∃ actions, (handleBits w bits).log = actions ++ w.log := by
  unfold handleBits
  split
  · split <;> exact ⟨[], rfl⟩
  · split
    · exact ⟨[], rfl⟩
    · split
      · exact ⟨[_], rfl⟩
      · exact ⟨[], rfl⟩

theorem log_tryConnect (w : World) (creds : WifiNetworkCredentials) (next : Next) :
    ∃ actions, (tryConnect w creds next).log = actions ++ w.log := by
  unfold tryConnect
  dsimp only
  split
  · exact ⟨[_], rfl⟩
  · exact ⟨[_, _], rfl⟩

/-- The log only grows. -/
theorem log_step {l : Label} (hmove : Move w l w') : ∃ actions, w'.log = actions ++ w.log := by
  cases hmove with
  | aside haside =>
      obtain ⟨actions, _, hlog⟩ := haside.log
      exact ⟨actions, hlog⟩
  | announce => exact ⟨[_], rfl⟩
  | deliver => exact ⟨[_], rfl⟩
  | wake => exact ⟨[_], rfl⟩
  | handleBits => exact log_handleBits w _
  | roam => exact ⟨[], rfl⟩
  | tryConnect => exact log_tryConnect w _ _
  | connect => exact ⟨_, rfl⟩
  | connected => exact ⟨[], rfl⟩
  | failed => exact ⟨[_], rfl⟩
  | comparePrev _ hcompares =>
      cases hcompares with
      | passed => exact ⟨[], rfl⟩
      | found => exact ⟨[_], rfl⟩
      | inserted => exact ⟨[_], rfl⟩
  | blockLeft => exact ⟨[_], rfl⟩

theorem always_of_append {actions log : List Action}
    (h : Always FewNetworks (actions ++ log)) : Always FewNetworks log := by
  induction actions with
  | nil => exact h
  | cons a actions ih => exact ih h.2

/-- No two slots of the history hold the same name. -/
def SlotsDistinct (w : World) : Prop :=
  ∀ i j, (w.history.usedNetworks i).ssid.str = (w.history.usedNetworks j).ssid.str →
    (w.history.usedNetworks i).ssid.str ≠ .empty → i = j

instance (w : World) : Decidable (SlotsDistinct w) :=
  inferInstanceAs (Decidable (∀ _ _, _ → _ → _))

theorem slotsDistinct_start (savedNetworks : WifiSavedNetworkInfo) :
    SlotsDistinct (start savedNetworks) :=
  (inv_start savedNetworks).filled.choose_spec.distinct

theorem slotsDistinct_ensure {ssid : CString} (h : SlotsDistinct w)
    (hlen : ssid.length ≤ wifiMaxSsidLength) : SlotsDistinct (ensure w ssid).1 := by
  show (ring (w.history.ensureNetworkInfo ssid).1).Distinct .empty
  rw [ring_ensureNetworkInfo hlen]
  exact RingBuffer.Distinct.ensure (r := ring w.history) h ssid

theorem slotsDistinct_block (h : SlotsDistinct w) (info : Fin networkHistorySize)
    (cause : Cause) : SlotsDistinct (block w info cause) := by
  show (ring (w.history.blockNetwork info w.now)).Distinct .empty
  rw [ring_blockNetwork]
  exact h

theorem slotsDistinct_handleBits {bits : EventBits} (h : SlotsDistinct w) :
    SlotsDistinct (handleBits w bits) := by
  unfold handleBits
  split
  · split <;> exact h
  · split
    · exact h
    · split
      · show (ring w.history.clearNetworkHistory).Distinct .empty
        rw [ring_clearNetworkHistory]
        exact RingBuffer.distinct_const _ _
      · exact h

theorem slotsDistinct_step {l : Label} (h : SlotsDistinct w) (hwell : Causes.Inv w)
    (hsearching : Searching w) (hmove : Move w l w') : SlotsDistinct w' := by
  cases hmove with
  | aside haside =>
      rw [SlotsDistinct, haside.history]
      exact h
  | handleBits => exact slotsDistinct_handleBits h
  | tryConnect hmanager =>
      have hcreds := hwell.ready
      rw [Causes.Ready, hmanager] at hcreds
      have hensured := slotsDistinct_ensure h hcreds.withinLimits.1
      unfold tryConnect
      dsimp only
      split <;> exact hensured
  | failed => exact slotsDistinct_block h _ .failed
  | comparePrev hmanager hcompares =>
      rcases compares_cases hsearching hmanager hcompares with ⟨rfl, _⟩ | ⟨info, rfl⟩
      · exact h
      · exact slotsDistinct_ensure h (length_prevSsid_le hwell)
  | blockLeft => exact slotsDistinct_block h _ .left
  | announce | deliver | wake | roam | connect | connected => exact h

end Step

theorem inv_reachable {savedNetworks : WifiSavedNetworkInfo} {w : World}
    (hsaved : savedNetworks.Terminated)
    (h : Reachable (FiresWhen NotPassed step) (start savedNetworks) w) :
    SlotsDistinct w ∧ (Always FewNetworks w.log → Inv w) := by
  have hall : (Lock.Locked w ∧ Causes.Inv w ∧ Searching w) ∧ SlotsDistinct w ∧
      (Always FewNetworks w.log → Inv w) := by
    refine h.invariant (I := fun w => (Lock.Locked w ∧ Causes.Inv w ∧ Searching w) ∧
      SlotsDistinct w ∧ (Always FewNetworks w.log → Inv w)) ?_ ?_
    · exact ⟨⟨Lock.locked_start savedNetworks, Causes.inv_start hsaved, searching_of_ne nofun⟩,
        slotsDistinct_start savedNetworks, fun _ => inv_start savedNetworks⟩
    · rintro w l w' ⟨⟨hlocked, hwell, hsearching⟩, hdistinct, hinv⟩ ⟨hnotPassed, hfire⟩
      have hmove := step_move hfire
      refine ⟨⟨Lock.locked_step hlocked hmove, Causes.inv_step hwell hlocked hmove,
        searching_step hsearching hnotPassed hmove⟩,
        slotsDistinct_step hdistinct hwell hsearching hmove, fun hfew => ?_⟩
      obtain ⟨actions, hlog⟩ := log_step hmove
      exact inv_step (hinv (always_of_append (hlog ▸ hfew))) hwell hsearching hfew hmove
  exact hall.2

/-! ## The contract -/

/-- In every run in which `prev_ssid` is not overwritten behind the search for it: if the
history is asked for no more networks than it has room for before it is cleared, a blocked
network stays blocked; and no network has two slots. -/
theorem blocked_stays_blocked {savedNetworks : WifiSavedNetworkInfo} {w : World}
    (hsaved : savedNetworks.Terminated)
    (h : Reachable (FiresWhen NotPassed step) (start savedNetworks) w) :
    (Always FewNetworks w.log → Always KeepsBlocks w.log) ∧ SlotsDistinct w :=
  ⟨fun hfew => ((inv_reachable hsaved h).2 hfew).calls, (inv_reachable hsaved h).1⟩

def callOf : Action → Option CString
  | .called ssid _ => some ssid
  | _ => none

/-- A network is tried in vain, passed over while it is blocked, and tried again after
five minutes. -/
theorem blocked_stays_blocked_again :
    ∃ w : World, w.log.filterMap callOf = [home.name, home.name] ∧ Always FewNetworks w.log ∧
      Always KeepsBlocks w.log ∧ SlotsDistinct w := by
  have hrun : (exec (guarded NotPassed step) (start (saved [home]))
      (scanned [home] [home] ++ byManager 7 ++ [.manager .refused] ++ byManager 3 ++
        [.tick 30000000] ++ byManager 6 ++ [.manager (.scanned [home])] ++ byManager 3 ++
        [.tick 300000000] ++ byManager 6 ++ [.manager (.scanned [home])] ++ byManager 3)).any
      (fun w => decide (w.log.filterMap callOf = [home.name, home.name]) &&
        decide (Always FewNetworks w.log)) = true := by
    decide +kernel
  obtain ⟨w, hw, hp⟩ := exists_reachable_of_exec hrun
  rw [Bool.and_eq_true, decide_eq_true_eq, decide_eq_true_eq] at hp
  obtain ⟨hkeeps, hdistinct⟩ := blocked_stays_blocked (terminated_saved _) hw.of_guarded
  exact ⟨w, hp.1, hp.2, hkeeps hp.2, hdistinct⟩

/-- As many networks as the history has slots. -/
def five : List Ssid :=
  [letter 97 (by decide), letter 98 (by decide), cafe, letter 100 (by decide),
    letter 101 (by decide)]

/-- The manager blocks all five.  The user connects to the last of them and leaves it, and
while the manager compares `prev_ssid` with the last slot, connects to the fourth: that
network gets the slot of the first one too, which the manager then calls, five minutes too
early, when the connection is dropped. -/
def overtaken : List Label :=
  scanned five five ++
    (List.replicate 5 (byManager 7 ++ [.manager .refused] ++ byManager 2)).flatten ++
    byManager 1 ++ userConnects five[4] ++ [.tick 30000000] ++ byManager 2 ++
    userDisconnects five[4] ++ byManager 6 ++ userConnects five[3] ++ byManager 3 ++
    lost five[3] .other ++ handled 1 ++ byManager 8 ++ [.manager (.scanned [five[0]])] ++
    byManager 2

theorem blocked_tried_again :
    ∃ w, Reachable (Fires step) (start (saved five)) w ∧ Always FewNetworks w.log ∧
      ¬ Always KeepsBlocks w.log ∧ ¬ SlotsDistinct w := by
  have hrun : (exec step (start (saved five)) overtaken).any
      (fun w => decide (Always FewNetworks w.log) && decide (¬ Always KeepsBlocks w.log) &&
        decide (¬ SlotsDistinct w)) = true := by
    decide +kernel
  obtain ⟨w, hw, hp⟩ := exists_reachable_of_exec hrun
  simp only [Bool.and_eq_true, decide_eq_true_eq] at hp
  exact ⟨w, hw, hp.1.1, hp.1.2, hp.2⟩

end GbPlay.Esp.Network.StaysBlocked
