import GbPlay.Library.CString
import Mathlib.Data.List.Basic
import Mathlib.Tactic.Common

/-!
# Saved networks

The store of Wi-Fi credentials of `hardware/wifi.c`: a table in memory, written
back to non-volatile storage as one blob whenever it changes.
-/

namespace GbPlay.Esp.SavedNetworks

open GbPlay.Library

def wifiMaxSsidLength : Nat := 32

def wifiMaxPassLength : Nat := 64

def wifiMaxSavedNetworks : Nat := 5

def wifiSavedNetworksStorageKey : String := "wifi_networks"

structure WifiNetworkCredentials where
  ssid : CharArray (wifiMaxSsidLength + 1)
  pass : CharArray (wifiMaxPassLength + 1)
  deriving DecidableEq

def WifiNetworkCredentials.zero : WifiNetworkCredentials := ⟨.zero _, .zero _⟩

/-- The array keeps its length, whatever is written to it. -/
structure WifiSavedNetworkInfo where
  networks : List WifiNetworkCredentials
  size : networks.length = wifiMaxSavedNetworks
  count : Nat
  deriving DecidableEq

namespace WifiSavedNetworkInfo

@[ext] theorem ext {t t' : WifiSavedNetworkInfo} (hnetworks : t.networks = t'.networks)
    (hcount : t.count = t'.count) : t = t' := by
  cases t
  cases t'
  congr

/-- `static wifi_saved_network_info s_saved_networks = {0}` -/
def zero : WifiSavedNetworkInfo where
  networks := List.replicate wifiMaxSavedNetworks .zero
  size := List.length_replicate
  count := 0

/-- `networks[i]` -/
def network (t : WifiSavedNetworkInfo) (i : Nat) : WifiNetworkCredentials :=
  t.networks.getD i .zero

/-- `networks[i] = ap` -/
def write (t : WifiSavedNetworkInfo) (i : Nat) (ap : WifiNetworkCredentials) :
    WifiSavedNetworkInfo :=
  { t with networks := t.networks.set i ap, size := by rw [List.length_set, t.size] }

/-- `_get_saved_network`: the first entry whose SSID compares equal. -/
def getSavedNetwork (t : WifiSavedNetworkInfo) (ssid : CString) : Option Nat :=
  (List.range t.count).find? fun i => (t.network i).ssid.str = ssid

/-- `TRUNCATED_STRING_COPY(existing->pass, password)` -/
def replacePass (t : WifiSavedNetworkInfo) (existing : Nat) (password : CString) :
    WifiSavedNetworkInfo :=
  t.write existing { t.network existing with pass := .truncatedStringCopy _ password }

/-- The copies into the first free entry, and `++count`. -/
def append (t : WifiSavedNetworkInfo) (ssid password : CString) : WifiSavedNetworkInfo :=
  { t.write t.count ⟨.truncatedStringCopy _ ssid, .truncatedStringCopy _ password⟩ with
    count := t.count + 1 }

/-- What `wifi_save_network` makes of the table, if it saves. -/
def save (t : WifiSavedNetworkInfo) (ssid password : CString) : Option WifiSavedNetworkInfo :=
  match t.getSavedNetwork ssid with
  | some existing => some (t.replacePass existing password)
  | none => if t.count < wifiMaxSavedNetworks then some (t.append ssid password) else none

/-- One pass of the loop in `wifi_forget_network`, with `found_existing`. -/
def forgetEntry (ssid : CString) (s : WifiSavedNetworkInfo × Bool) (i : Nat) :
    WifiSavedNetworkInfo × Bool :=
  let ap := s.1.network i
  if s.2 then
    -- shift left
    ((s.1.write (i - 1) ap).write i .zero, true)
  else if ap.ssid.str = ssid then (s.1.write i .zero, true)
  else s

/-- What `wifi_forget_network` makes of the table, if it finds the network. -/
def forget (t : WifiSavedNetworkInfo) (ssid : CString) : Option WifiSavedNetworkInfo :=
  let (t', foundExisting) := (List.range t.count).foldl (forgetEntry ssid) (t, false)
  if foundExisting then some { t' with count := t'.count - 1 } else none

end WifiSavedNetworkInfo

/-! ## Terminated strings -/

/-- Both strings end inside their arrays. -/
structure WifiNetworkCredentials.Terminated (ap : WifiNetworkCredentials) : Prop where
  ssid : ap.ssid.Terminated
  pass : ap.pass.Terminated

theorem WifiNetworkCredentials.terminated_zero : WifiNetworkCredentials.zero.Terminated :=
  ⟨CharArray.terminated_zero _, CharArray.terminated_zero _⟩

namespace WifiSavedNetworkInfo

/-- No comparison of strings reads past an array of the table. -/
def Terminated (t : WifiSavedNetworkInfo) : Prop := ∀ i, (t.network i).Terminated

variable {t : WifiSavedNetworkInfo} {ap : WifiNetworkCredentials} {i : Nat}

theorem network_zero (i : Nat) : zero.network i = .zero := by
  rw [network, zero, List.getD_eq_getElem?_getD, List.getElem?_replicate]
  split <;> rfl

theorem terminated_zero : zero.Terminated := by
  intro i
  rw [network_zero]
  exact WifiNetworkCredentials.terminated_zero

theorem network_write (t : WifiSavedNetworkInfo) (i j : Nat) (ap : WifiNetworkCredentials) :
    (t.write i ap).network j = ap ∨ (t.write i ap).network j = t.network j := by
  unfold network write
  rw [List.getD_eq_getElem?_getD, List.getD_eq_getElem?_getD, List.getElem?_set]
  split
  · split
    · left
      rfl
    · rename_i hij hlen
      right
      rw [List.getElem?_eq_none (by omega)]
  · right
    rfl

theorem Terminated.write (h : t.Terminated) (hap : ap.Terminated) :
    (t.write i ap).Terminated := by
  intro j
  obtain hnew | hold := t.network_write i j ap
  · rw [hnew]
    exact hap
  · rw [hold]
    exact h j

theorem Terminated.append (h : t.Terminated) (ssid password : CString) :
    (t.append ssid password).Terminated :=
  h.write ⟨CharArray.terminated_truncatedStringCopy wifiMaxSsidLength ssid,
    CharArray.terminated_truncatedStringCopy wifiMaxPassLength password⟩

theorem Terminated.save {t' : WifiSavedNetworkInfo} {ssid password : CString} (h : t.Terminated)
    (hsave : t.save ssid password = some t') : t'.Terminated := by
  unfold WifiSavedNetworkInfo.save at hsave
  split at hsave
  · rename_i existing _
    obtain rfl := Option.some.inj hsave
    exact h.write ⟨(h existing).ssid,
      CharArray.terminated_truncatedStringCopy wifiMaxPassLength password⟩
  · split at hsave
    · obtain rfl := Option.some.inj hsave
      exact h.append ssid password
    · cases hsave

theorem Terminated.forgetEntry {ssid : CString} {found : Bool} (h : t.Terminated) :
    (WifiSavedNetworkInfo.forgetEntry ssid (t, found) i).1.Terminated := by
  unfold WifiSavedNetworkInfo.forgetEntry
  dsimp only
  split
  · exact (h.write (h i)).write WifiNetworkCredentials.terminated_zero
  · split
    · exact h.write WifiNetworkCredentials.terminated_zero
    · exact h

theorem Terminated.foldl_forgetEntry {ssid : CString} {is : List Nat} {found : Bool}
    (h : t.Terminated) :
    (is.foldl (WifiSavedNetworkInfo.forgetEntry ssid) (t, found)).1.Terminated := by
  induction is generalizing t found with
  | nil => exact h
  | cons i is ih => exact ih h.forgetEntry

theorem Terminated.forget {t' : WifiSavedNetworkInfo} {ssid : CString} (h : t.Terminated)
    (hforget : t.forget ssid = some t') : t'.Terminated := by
  have hloop : ((List.range t.count).foldl (WifiSavedNetworkInfo.forgetEntry ssid)
      (t, false)).1.Terminated := h.foldl_forgetEntry
  unfold WifiSavedNetworkInfo.forget at hforget
  dsimp only at hforget
  split at hforget
  · obtain rfl := Option.some.inj hforget
    exact hloop
  · cases hforget

end WifiSavedNetworkInfo

/-! ## The module and its storage -/

/-- Non-volatile storage: a blob read back is the one last written under its key. -/
structure Storage (β : Type) where
  State : Type
  getBlob : State → String → Option β
  setBlob : State → String → β → State
  getBlob_setBlob : ∀ s key blob, getBlob (setBlob s key blob) key = some blob

/-- `s_saved_networks`, and the flash that survives a restart. -/
structure Wifi (S : Storage WifiSavedNetworkInfo) where
  savedNetworks : WifiSavedNetworkInfo
  flash : S.State

variable {S : Storage WifiSavedNetworkInfo}

/-- `_wifi_flush_saved_networks` -/
def wifiFlushSavedNetworks (w : Wifi S) : Wifi S :=
  { w with flash := S.setBlob w.flash wifiSavedNetworksStorageKey w.savedNetworks }

/-- `wifi_initialize` after a restart, which has zeroed the memory: load
previously saved credentials. -/
def wifiInitialize (flash : S.State) : Wifi S :=
  match S.getBlob flash wifiSavedNetworksStorageKey with
  | some savedNetworks => ⟨savedNetworks, flash⟩
  | none => ⟨.zero, flash⟩

def wifiGetSavedNetwork (w : Wifi S) (ssid : CString) : Option WifiNetworkCredentials :=
  (w.savedNetworks.getSavedNetwork ssid).map w.savedNetworks.network

/-- The entries copied to `out_networks`; their number is returned. -/
def wifiGetAllSavedNetworks (w : Wifi S) : List WifiNetworkCredentials :=
  (List.range w.savedNetworks.count).map w.savedNetworks.network

/-- Both ways of saving flush the table. -/
def wifiSaveNetwork (w : Wifi S) (ssid password : CString) : Wifi S × Bool :=
  match w.savedNetworks.save ssid password with
  | some savedNetworks => (wifiFlushSavedNetworks { w with savedNetworks }, true)
  | none => (w, false)

def wifiForgetNetwork (w : Wifi S) (ssid : CString) : Wifi S :=
  match w.savedNetworks.forget ssid with
  | some savedNetworks => wifiFlushSavedNetworks { w with savedNetworks }
  | none => w

/-! ## Operations and their results -/

inductive Op
  | save (ssid password : CString)
  | forget (ssid : CString)
  | get (ssid : CString)
  | getAll
  | restart

/-- Credentials are observed as the strings in their arrays. -/
inductive Result
  | saved (didSave : Bool)
  | forgotten
  | found (network : Option (CString × CString))
  | all (networks : List (CString × CString))
  | restarted
  deriving DecidableEq

def WifiNetworkCredentials.strings (ap : WifiNetworkCredentials) : CString × CString :=
  (ap.ssid.str, ap.pass.str)

def perform (w : Wifi S) : Op → Wifi S × Result
  | .save ssid password =>
      let (w', didSave) := wifiSaveNetwork w ssid password
      (w', .saved didSave)
  | .forget ssid => (wifiForgetNetwork w ssid, .forgotten)
  | .get ssid => (w, .found ((wifiGetSavedNetwork w ssid).map (·.strings)))
  | .getAll => (w, .all ((wifiGetAllSavedNetworks w).map (·.strings)))
  | .restart => (wifiInitialize w.flash, .restarted)

/-- The length checks a connection passes before its network is saved. -/
def WithinLimits (ssid password : CString) : Prop :=
  ssid.length ≤ wifiMaxSsidLength ∧ password.length ≤ wifiMaxPassLength

instance (ssid password : CString) : Decidable (WithinLimits ssid password) :=
  inferInstanceAs (Decidable (_ ∧ _))

/-- Terminated credentials pass the checks. -/
theorem WifiNetworkCredentials.Terminated.withinLimits {ap : WifiNetworkCredentials}
    (h : ap.Terminated) : WithinLimits ap.ssid.str ap.pass.str :=
  ⟨Nat.le_of_lt_succ h.ssid.length_str_lt, Nat.le_of_lt_succ h.pass.length_str_lt⟩

def Op.Allowed : Op → Prop
  | .save ssid password => WithinLimits ssid password
  | _ => True

end GbPlay.Esp.SavedNetworks
