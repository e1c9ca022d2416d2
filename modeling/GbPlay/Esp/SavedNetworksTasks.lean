import GbPlay.Esp.SavedNetworksMap
import GbPlay.Library.Atomicity

/-!
# Saved networks and tasks

The functions of `hardware/wifi.c` on the saved networks, one turn of a loop or one change of
the table at a time.  Any number of tasks call them; `s_wifi_storage_lock` lets one at a time
in, and the power may fail in the middle of any of them.
-/

namespace GbPlay.Esp.SavedNetworksTasks

open GbPlay.Library GbPlay.Library.Runs
open GbPlay.Library.Atomicity (Code Finishes Performs Label Observation)
open GbPlay.Library.Atomicity
open GbPlay.Esp.SavedNetworks
open GbPlay.Esp.SavedNetworksMap

/-- A call of `wifi_save_network`, `wifi_forget_network`, `wifi_get_saved_network` or
`wifi_get_all_saved_networks`. -/
inductive Request
  | save (ssid password : CString)
  | forget (ssid : CString)
  | get (ssid : CString)
  | getAll
  deriving DecidableEq

def Request.op : Request → Op
  | .save ssid password => .save ssid password
  | .forget ssid => .forget ssid
  | .get ssid => .get ssid
  | .getAll => .getAll

/-- The caller of `_get_saved_network`. -/
inductive Caller
  | save (password : CString)
  | get
  deriving DecidableEq

/-- Where a task is in one of the functions. -/
inductive Pc
  /-- the loop in `_get_saved_network` -/
  | search (ssid : CString) (i : Nat) (caller : Caller)
  | replacePass (existing : Nat) (password : CString)
  /-- the test of the count in `wifi_save_network` -/
  | room (ssid password : CString)
  | copySsid (ssid password : CString)
  | copyPass (password : CString)
  | increment
  /-- `_wifi_flush_saved_networks`, and what is returned -/
  | flush (result : Result)
  | forgetEntry (ssid : CString) (i : Nat) (foundExisting : Bool)
  | decrement
  | copyOut (existing : Nat)
  | count
  | copyAll (count i : Nat) (outNetworks : List WifiNetworkCredentials)
  deriving DecidableEq

def start : Request → Pc
  | .save ssid password => .search ssid 0 (.save password)
  | .forget ssid => .forgetEntry ssid 0 false
  | .get ssid => .search ssid 0 .get
  | .getAll => .count

/-- Where the caller goes on with what has been found. -/
def Caller.found (existing : Nat) : Caller → Pc
  | .save password => .replacePass existing password
  | .get => .copyOut existing

variable {S : Storage WifiSavedNetworkInfo}

def step (w : Wifi S) : Pc → Wifi S × (Pc ⊕ Result)
  | .search ssid i caller =>
      if i < w.savedNetworks.count then
        if (w.savedNetworks.network i).ssid.str = ssid then (w, .inl (caller.found i))
        else (w, .inl (.search ssid (i + 1) caller))
      else
        match caller with
        | .save password => (w, .inl (.room ssid password))
        | .get => (w, .inr (.found none))
  | .replacePass existing password =>
      ({ w with savedNetworks := w.savedNetworks.replacePass existing password },
        .inl (.flush (.saved true)))
  | .room ssid password =>
      if w.savedNetworks.count < wifiMaxSavedNetworks then (w, .inl (.copySsid ssid password))
      else (w, .inr (.saved false))
  | .copySsid ssid password =>
      let t := w.savedNetworks
      let ap := { t.network t.count with ssid := .truncatedStringCopy _ ssid }
      ({ w with savedNetworks := t.write t.count ap }, .inl (.copyPass password))
  | .copyPass password =>
      let t := w.savedNetworks
      let ap := { t.network t.count with pass := .truncatedStringCopy _ password }
      ({ w with savedNetworks := t.write t.count ap }, .inl .increment)
  | .increment =>
      ({ w with savedNetworks := { w.savedNetworks with count := w.savedNetworks.count + 1 } },
        .inl (.flush (.saved true)))
  | .flush result => (wifiFlushSavedNetworks w, .inr result)
  | .forgetEntry ssid i foundExisting =>
      if i < w.savedNetworks.count then
        let (savedNetworks, foundExisting) :=
          WifiSavedNetworkInfo.forgetEntry ssid (w.savedNetworks, foundExisting) i
        ({ w with savedNetworks }, .inl (.forgetEntry ssid (i + 1) foundExisting))
      else if foundExisting then (w, .inl .decrement)
      else (w, .inr .forgotten)
  | .decrement =>
      ({ w with savedNetworks := { w.savedNetworks with count := w.savedNetworks.count - 1 } },
        .inl (.flush .forgotten))
  | .copyOut existing => (w, .inr (.found (some (w.savedNetworks.network existing).strings)))
  | .count => (w, .inl (.copyAll w.savedNetworks.count 0 []))
  | .copyAll count i outNetworks =>
      if i < count then
        (w, .inl (.copyAll count (i + 1) (outNetworks ++ [w.savedNetworks.network i])))
      else (w, .inr (.all (outNetworks.map (·.strings))))

def code (S : Storage WifiSavedNetworkInfo) : Code (Wifi S) Request Result Pc := ⟨start, step⟩

/-- A restart, which leaves the flash. -/
def restart (w : Wifi S) : Wifi S := wifiInitialize w.flash

/-! ## What the functions do when nobody interrupts them -/

variable {w w' : Wifi S} {r : Result}

theorem finishes_search {ssid : CString} {caller : Caller} (n i : Nat)
    (hn : i + n = w.savedNetworks.count)
    (hbefore : ∀ j < i, (w.savedNetworks.network j).ssid.str ≠ ssid)
    (hfound : ∀ existing, w.savedNetworks.getSavedNetwork ssid = some existing →
      Finishes (code S) w (caller.found existing) w' r)
    (hmissing : w.savedNetworks.getSavedNetwork ssid = none →
      Finishes (code S) w (.search ssid w.savedNetworks.count caller) w' r) :
    Finishes (code S) w (.search ssid i caller) w' r := by
  induction n generalizing i with
  | zero =>
      obtain rfl : i = w.savedNetworks.count := hn
      apply hmissing
      rw [WifiSavedNetworkInfo.getSavedNetwork, List.find?_eq_none]
      intro j hj
      rw [decide_eq_true_eq]
      exact hbefore j (List.mem_range.mp hj)
  | succ n ih =>
      have hi : i < w.savedNetworks.count := by omega
      by_cases hssid : (w.savedNetworks.network i).ssid.str = ssid
      · have hfirst : w.savedNetworks.getSavedNetwork ssid = some i := by
          rw [WifiSavedNetworkInfo.getSavedNetwork, List.find?_range_eq_some]
          refine ⟨decide_eq_true hssid, List.mem_range.mpr hi, fun j hj => ?_⟩
          simpa using hbefore j hj
        exact .more (by simp [code, step, hi, hssid]) (hfound i hfirst)
      · refine .more (by simp [code, step, hi, hssid]) (ih (i + 1) (by omega) fun j hj => ?_)
        rcases Nat.lt_succ_iff_lt_or_eq.mp hj with hlt | rfl
        · exact hbefore j hlt
        · exact hssid

theorem count_forgetEntry (ssid : CString) (t : WifiSavedNetworkInfo) (found : Bool) (i : Nat) :
    (WifiSavedNetworkInfo.forgetEntry ssid (t, found) i).1.count = t.count := by
  unfold WifiSavedNetworkInfo.forgetEntry
  dsimp only
  split
  · rfl
  · split <;> rfl

theorem finishes_forgetEntry {ssid : CString} {t' : WifiSavedNetworkInfo} {found' : Bool}
    (n i : Nat) (found : Bool) (hn : i + n = w.savedNetworks.count)
    (hfold : (List.range' i n).foldl (WifiSavedNetworkInfo.forgetEntry ssid)
      (w.savedNetworks, found) = (t', found'))
    (hrest : t'.count = w.savedNetworks.count → Finishes (code S) { w with savedNetworks := t' }
      (.forgetEntry ssid t'.count found') w' r) :
    Finishes (code S) w (.forgetEntry ssid i found) w' r := by
  induction n generalizing i found w with
  | zero =>
      cases hfold
      obtain rfl : i = w.savedNetworks.count := hn
      exact hrest rfl
  | succ n ih =>
      have hi : i < w.savedNetworks.count := by omega
      have hcount := count_forgetEntry ssid w.savedNetworks found i
      rw [List.range'_succ, List.foldl_cons] at hfold
      generalize hentry : WifiSavedNetworkInfo.forgetEntry ssid (w.savedNetworks, found) i = e
        at hfold hcount
      obtain ⟨t, found₁⟩ := e
      have hnext : Finishes (code S) { w with savedNetworks := t }
          (.forgetEntry ssid (i + 1) found₁) w' r := by
        refine ih (i + 1) found₁ ?_ hfold fun hsame => hrest ?_
        · show i + 1 + n = t.count
          rw [hcount]
          omega
        · exact hsame.trans hcount
      exact .more (by simp [code, step, hi, hentry]) hnext

/-- A loop that has not found the network has not changed the table. -/
theorem foldl_forgetEntry_missing {ssid : CString} {is : List Nat} {t t' : WifiSavedNetworkInfo}
    {found : Bool}
    (h : is.foldl (WifiSavedNetworkInfo.forgetEntry ssid) (t, found) = (t', false)) :
    t' = t ∧ found = false := by
  induction is generalizing t found with
  | nil =>
      cases h
      exact ⟨rfl, rfl⟩
  | cons i is ih =>
      rw [List.foldl_cons] at h
      generalize hentry : WifiSavedNetworkInfo.forgetEntry ssid (t, found) i = e at h
      obtain ⟨t₁, found₁⟩ := e
      obtain ⟨rfl, rfl⟩ := ih h
      unfold WifiSavedNetworkInfo.forgetEntry at hentry
      dsimp only at hentry
      split at hentry
      · cases hentry
      · rename_i hnot
        split at hentry
        · cases hentry
        · cases hentry
          exact ⟨rfl, rfl⟩

theorem finishes_copyAll {count : Nat} (n i : Nat) (outNetworks : List WifiNetworkCredentials)
    (hn : i + n = count) : Finishes (code S) w (.copyAll count i outNetworks) w
      (.all ((outNetworks ++ (List.range' i n).map w.savedNetworks.network).map (·.strings))) := by
  induction n generalizing i outNetworks with
  | zero =>
      obtain rfl : i = count := hn
      exact .last (by simp [code, step])
  | succ n ih =>
      have hi : i < count := by omega
      have hnext := ih (i + 1) (outNetworks ++ [w.savedNetworks.network i]) (by omega)
      rw [List.append_assoc, List.singleton_append] at hnext
      rw [List.range'_succ, List.map_cons]
      exact .more (by simp [code, step, hi]) hnext

/-- The copies and the increment of `wifi_save_network`. -/
theorem copies_eq_append (t : WifiSavedNetworkInfo) (ssid password : CString)
    (hroom : t.count < wifiMaxSavedNetworks) :
    let t₁ := t.write t.count { t.network t.count with ssid := .truncatedStringCopy _ ssid }
    let t₂ := t₁.write t₁.count { t₁.network t₁.count with pass := .truncatedStringCopy _ password }
    { t₂ with count := t₂.count + 1 } = t.append ssid password := by
  have hlt : t.count < t.networks.length := by rwa [t.size]
  intro t₁ t₂
  have hread : t₁.network t.count =
      { t.network t.count with ssid := .truncatedStringCopy _ ssid } := by
    simp [t₁, WifiSavedNetworkInfo.network, WifiSavedNetworkInfo.write, hlt]
  have hcount : t₁.count = t.count := rfl
  apply WifiSavedNetworkInfo.ext
  · show t₁.networks.set t₁.count _ = _
    rw [hcount, hread]
    simp [t₁, WifiSavedNetworkInfo.append, WifiSavedNetworkInfo.write]
  · rfl

theorem finishes_save (w : Wifi S) (ssid password : CString) :
    Finishes (code S) w (.search ssid 0 (.save password)) (perform w (.save ssid password)).1
      (perform w (.save ssid password)).2 := by
  refine finishes_search w.savedNetworks.count 0 (Nat.zero_add _) nofun ?_ ?_
  · intro existing hfound
    have hsave : w.savedNetworks.save ssid password =
        some (w.savedNetworks.replacePass existing password) := by
      rw [WifiSavedNetworkInfo.save, hfound]
    simp only [perform, wifiSaveNetwork, hsave]
    exact .more rfl (.last rfl)
  · intro hmissing
    have hsave : w.savedNetworks.save ssid password =
        if w.savedNetworks.count < wifiMaxSavedNetworks then
          some (w.savedNetworks.append ssid password) else none := by
      rw [WifiSavedNetworkInfo.save, hmissing]
    have hsearched : (code S).step w (.search ssid w.savedNetworks.count (.save password)) =
        (w, .inl (.room ssid password)) := by simp [code, step]
    refine .more hsearched ?_
    by_cases hroom : w.savedNetworks.count < wifiMaxSavedNetworks
    · rw [if_pos hroom] at hsave
      simp only [perform, wifiSaveNetwork, hsave]
      rw [← copies_eq_append w.savedNetworks ssid password hroom]
      have hcopies : (code S).step w (.room ssid password) =
          (w, .inl (.copySsid ssid password)) := by simp [code, step, hroom]
      exact .more hcopies (.more rfl (.more rfl (.more rfl (.last rfl))))
    · rw [if_neg hroom] at hsave
      simp only [perform, wifiSaveNetwork, hsave]
      exact .last (by simp [code, step, hroom])

theorem finishes_forget (w : Wifi S) (ssid : CString) :
    Finishes (code S) w (.forgetEntry ssid 0 false) (perform w (.forget ssid)).1
      (perform w (.forget ssid)).2 := by
  generalize hfold : (List.range' 0 w.savedNetworks.count).foldl
    (WifiSavedNetworkInfo.forgetEntry ssid) (w.savedNetworks, false) = e
  obtain ⟨t', found⟩ := e
  have hforget : w.savedNetworks.forget ssid =
      if found then some { t' with count := t'.count - 1 } else none := by
    rw [WifiSavedNetworkInfo.forget, List.range_eq_range', hfold]
  refine finishes_forgetEntry w.savedNetworks.count 0 false (Nat.zero_add _) hfold fun _ => ?_
  cases found with
  | true =>
      rw [if_pos rfl] at hforget
      simp only [perform, wifiForgetNetwork, hforget]
      have hfound : (code S).step { w with savedNetworks := t' } (.forgetEntry ssid t'.count true) =
          ({ w with savedNetworks := t' }, .inl .decrement) := by simp [code, step]
      exact .more hfound (.more rfl (.last rfl))
  | false =>
      obtain ⟨rfl, _⟩ := foldl_forgetEntry_missing hfold
      rw [if_neg Bool.false_ne_true] at hforget
      simp only [perform, wifiForgetNetwork, hforget]
      exact .last (by simp [code, step])

theorem finishes_get (w : Wifi S) (ssid : CString) :
    Finishes (code S) w (.search ssid 0 .get) (perform w (.get ssid)).1
      (perform w (.get ssid)).2 := by
  refine finishes_search w.savedNetworks.count 0 (Nat.zero_add _) nofun ?_ ?_
  · intro existing hfound
    simp only [perform, wifiGetSavedNetwork, hfound]
    exact .last rfl
  · intro hmissing
    simp only [perform, wifiGetSavedNetwork, hmissing]
    exact .last (by simp [code, step])

theorem finishes_getAll (w : Wifi S) :
    Finishes (code S) w .count (perform w .getAll).1 (perform w .getAll).2 := by
  have hcopies := finishes_copyAll (w := w) w.savedNetworks.count 0 [] (Nat.zero_add _)
  simp only [perform, wifiGetAllSavedNetworks]
  rw [List.range_eq_range']
  exact .more rfl hcopies

/-- Only the last step writes to the flash. -/
theorem flash_step {pc pc' : Pc} (h : step w pc = (w', .inl pc')) : w'.flash = w.flash := by
  cases pc with
  | search ssid i caller =>
      simp only [step] at h
      split at h
      · split at h <;> cases h <;> rfl
      · cases caller <;> cases h
        rfl
  | room ssid password =>
      simp only [step] at h
      split at h <;> cases h
      rfl
  | flush result => cases h
  | copyOut existing => cases h
  | forgetEntry ssid i foundExisting =>
      simp only [step] at h
      split at h
      · cases h
        rfl
      · split at h <;> cases h
        rfl
  | copyAll count i outNetworks =>
      simp only [step] at h
      split at h <;> cases h
      rfl
  | _ =>
      cases h
      rfl

theorem performs_code : Performs (code S) (fun w request => perform w request.op) restart where
  finishes w request := by
    cases request with
    | save ssid password => exact finishes_save w ssid password
    | forget ssid => exact finishes_forget w ssid
    | get ssid => exact finishes_get w ssid
    | getAll => exact finishes_getAll w
  survives w pc w' pc' h := by rw [restart, restart, flash_step h]

/-! ## Every run -/

/-- However the tasks' calls overlap, and wherever in them the power fails, what they return could
have been returned by a bounded map that survives restarts, on which every call takes effect at
once between its beginning and its return; and while no task holds the lock, the table and the
flash are as they should be. -/
theorem savedNetworks_linearizable {τ : Type} [DecidableEq τ] (S : Storage WifiSavedNetworkInfo)
    (flash : S.State) (hempty : S.getBlob flash wifiSavedNetworksStorageKey = none)
    {ls : List (Label τ Request Result)} {s : Atomicity.State τ (Wifi S) Request Result Pc}
    (hcalls : ∀ t request, .call t request ∈ ls → request.op.Allowed)
    (h : Run (Fires (Atomicity.step (code S) restart)) (Atomicity.start (wifiInitialize flash))
      ls s) :
    ∃ ks u, Run
        (Fires (AtOnce.step (fun m request => NetworkMap.perform m (Request.op request)) id))
        (AtOnce.start .empty) ks u ∧
      ks.filterMap AtOnce.Label.observed = ls.filterMap Label.observed ∧
        (s.owner = none → Represents s.data.savedNetworks u.data ∧ Consistent s.data) := by
  have hinit : Simulates (wifiInitialize (S := S) flash) .empty := simulates_wifiInitialize hempty
  have hperform (w : Wifi S) (m : NetworkMap) (request : Request) (hallowed : request.op.Allowed)
      (hsimulates : Simulates w m) :
      Simulates (perform w request.op).1 (NetworkMap.perform m request.op).1 ∧
        (perform w request.op).2 = (NetworkMap.perform m request.op).2 :=
    perform_simulates hallowed hsimulates
  have hrestart (w : Wifi S) (m : NetworkMap) (hsimulates : Simulates w m) :
      Simulates (restart w) (id m) := by
    rw [restart, hsimulates.stored.wifiInitialize_flash]
    exact hsimulates
  obtain ⟨ks, u, hrun, hobserved, hrelated⟩ :=
    taken_at_once performs_code hperform hrestart hinit hcalls h
  refine ⟨ks, u, hrun, hobserved, fun hfree => ?_⟩
  have hsimulates := hrelated hfree
  exact ⟨hsimulates.table, consistent_of_simulates hsimulates⟩

def home : CString := ⟨[104], by simp⟩

def password : CString := ⟨[112], by simp⟩

/-- The task is let in and takes so many steps. -/
def inside (t : Bool) (n : Nat) : List (Label Bool Request Result) :=
  .take t :: List.replicate n (.step t)

/-- The power fails before a network has been flushed, and again when it has been, but before
`wifi_save_network` has returned. -/
def interrupted : List (Label Bool Request Result) :=
  .call false (.save home password) :: inside false 5 ++
    [.call true (.get home), .crash, .call true (.get home)] ++ inside true 1 ++
    [.give true, .returned true (.found none), .call false (.save home password)] ++
    inside false 6 ++ [.crash, .call true (.get home)] ++ inside true 2 ++
    [.give true, .returned true (.found (some (home, password)))]

theorem savedNetworks_linearizable_interrupted : ∃ ks u,
    Run (Fires (AtOnce.step (fun m request => NetworkMap.perform m (Request.op request)) id))
      (AtOnce.start .empty) ks u ∧
    ks.filterMap AtOnce.Label.observed =
      [.call false (.save home password), .call true (.get home), .crash,
        .call true (.get home), .returned true (.found none), .call false (.save home password),
        .crash, .call true (.get home), .returned true (.found (some (home, password)))] := by
  have hrun : (exec (Atomicity.step (code lastWritten) restart)
      (Atomicity.start (wifiInitialize fun _ => none)) interrupted).any
        (fun s => s.owner.isNone) = true := by
    decide +kernel
  have hall : ∀ l ∈ interrupted, ∀ t ssid password, l = .call t (.save ssid password) →
      ssid = home ∧ password = SavedNetworksTasks.password := by
    unfold interrupted inside
    simp
  have hallowed : ∀ t request, .call t request ∈ interrupted → request.op.Allowed := by
    intro t request hmem
    cases request with
    | save ssid pass =>
        obtain ⟨rfl, rfl⟩ := hall _ hmem t ssid pass rfl
        show WithinLimits home password
        decide
    | _ => trivial
  obtain ⟨s, hexec, _⟩ := exists_run_of_exec hrun
  obtain ⟨ks, u, hatomic, hobserved, _⟩ :=
    savedNetworks_linearizable lastWritten (fun _ => none) rfl hallowed hexec
  exact ⟨ks, u, hatomic, hobserved⟩

end GbPlay.Esp.SavedNetworksTasks
