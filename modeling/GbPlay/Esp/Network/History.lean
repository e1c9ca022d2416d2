import GbPlay.Esp.SavedNetworks
import Mathlib.Data.List.FinRange
import Mathlib.Logic.Function.Basic

/-!
# Network history

`network_history` of `tasks/network_manager.c`: a ring buffer of the networks
the manager has dealt with and of how long each is blocked, and the network that
was connected last.
-/

namespace GbPlay.Esp.Network.History

open GbPlay.Library
open GbPlay.Esp.SavedNetworks

def networkHistorySize : Nat := wifiMaxSavedNetworks

def minuteMicroseconds : Nat := 60 * 1000 * 1000

def networkBlockMinutes : Nat := 5

structure NetworkInfo where
  ssid : CharArray (wifiMaxSsidLength + 1)
  blockedUntil : Nat

def NetworkInfo.zero : NetworkInfo := ⟨.zero _, 0⟩

structure NetworkHistory where
  usedNetworks : Fin networkHistorySize → NetworkInfo
  prevSsid : CharArray (wifiMaxSsidLength + 1)
  nextIndex : Fin networkHistorySize

namespace NetworkHistory

/-- `static network_history s_network_history = {0}` -/
def zero : NetworkHistory := ⟨fun _ => .zero, .zero _, ⟨0, by decide⟩⟩

/-- The copy that `_on_connect` makes of the event's SSID. -/
def setPrevSsid (h : NetworkHistory) (ssid : CString) : NetworkHistory :=
  { h with prevSsid := .truncatedStringCopy _ ssid }

def findNetworkInfo (h : NetworkHistory) (ssid : CString) : Option (Fin networkHistorySize) :=
  (List.finRange networkHistorySize).find? fun i => (h.usedNetworks i).ssid.str = ssid

/-- The insertion into the ring buffer, which overwrites the oldest entry. -/
def insertNetworkInfo (h : NetworkHistory) (ssid : CString) :
    NetworkHistory × Fin networkHistorySize :=
  let index := h.nextIndex
  ({ h with
      nextIndex := ⟨(index + 1) % networkHistorySize, Nat.mod_lt _ (by decide)⟩
      usedNetworks := Function.update h.usedNetworks index
        { ssid := .truncatedStringCopy _ ssid, blockedUntil := 0 } }, index)

/-- The entry for an SSID, by its index. -/
def ensureNetworkInfo (h : NetworkHistory) (ssid : CString) :
    NetworkHistory × Fin networkHistorySize :=
  match h.findNetworkInfo ssid with
  | some entry => (h, entry)
  | none => h.insertNetworkInfo ssid

def clearNetworkHistory (h : NetworkHistory) : NetworkHistory :=
  { h with usedNetworks := fun _ => .zero, nextIndex := ⟨0, by decide⟩ }

def blockNetwork (h : NetworkHistory) (info : Fin networkHistorySize) (now : Nat) :
    NetworkHistory :=
  let blockedUntil := now + networkBlockMinutes * minuteMicroseconds
  { h with
    usedNetworks := Function.update h.usedNetworks info { h.usedNetworks info with blockedUntil } }

/-- No network is blocked any longer. -/
def Unblocked (h : NetworkHistory) (now : Nat) : Prop :=
  ∀ i, (h.usedNetworks i).blockedUntil ≤ now

instance (h : NetworkHistory) (now : Nat) : Decidable (h.Unblocked now) :=
  inferInstanceAs (Decidable (∀ _, _))

variable {h : NetworkHistory} {ssid : CString} {now : Nat}

@[simp] theorem prevSsid_ensureNetworkInfo :
    (h.ensureNetworkInfo ssid).1.prevSsid = h.prevSsid := by
  unfold ensureNetworkInfo
  split <;> rfl

theorem str_prevSsid_setPrevSsid (hlen : ssid.length ≤ wifiMaxSsidLength) :
    (h.setPrevSsid ssid).prevSsid.str = ssid :=
  CharArray.str_truncatedStringCopy_of_length_le hlen

theorem terminated_prevSsid_setPrevSsid : (h.setPrevSsid ssid).prevSsid.Terminated :=
  CharArray.terminated_truncatedStringCopy _ _

theorem str_insertNetworkInfo (hlen : ssid.length ≤ wifiMaxSsidLength) :
    ((h.insertNetworkInfo ssid).1.usedNetworks (h.insertNetworkInfo ssid).2).ssid.str = ssid := by
  simp only [insertNetworkInfo, Function.update_self]
  exact CharArray.str_truncatedStringCopy_of_length_le hlen

/-- The search ends at the first entry for the SSID. -/
theorem ensureNetworkInfo_of_found {i : Fin networkHistorySize}
    (hbefore : ∀ j < i, (h.usedNetworks j).ssid.str ≠ ssid)
    (hfound : (h.usedNetworks i).ssid.str = ssid) : h.ensureNetworkInfo ssid = (h, i) := by
  have hfind : h.findNetworkInfo ssid = some i := by
    rw [findNetworkInfo, List.find?_eq_some_iff_getElem]
    refine ⟨by simpa using hfound, i, by simp, by simp, fun j hj => ?_⟩
    simpa using hbefore ⟨j, hj.trans i.isLt⟩ hj
  rw [ensureNetworkInfo, hfind]

theorem ensureNetworkInfo_of_passed (hnone : ∀ i, (h.usedNetworks i).ssid.str ≠ ssid) :
    h.ensureNetworkInfo ssid = h.insertNetworkInfo ssid := by
  have hfind : h.findNetworkInfo ssid = none := by
    rw [findNetworkInfo, List.find?_eq_none]
    intro i _
    simpa using hnone i
  rw [ensureNetworkInfo, hfind]

/-- The entry returned is one for the SSID asked for. -/
theorem str_ensureNetworkInfo (hlen : ssid.length ≤ wifiMaxSsidLength) :
    ((h.ensureNetworkInfo ssid).1.usedNetworks (h.ensureNetworkInfo ssid).2).ssid.str = ssid := by
  unfold ensureNetworkInfo
  cases hfind : h.findNetworkInfo ssid with
  | some entry => simpa using List.find?_some hfind
  | none => exact str_insertNetworkInfo hlen

theorem unblocked_clearNetworkHistory : h.clearNetworkHistory.Unblocked now :=
  fun _ => Nat.zero_le now

theorem Unblocked.mono {later : Nat} (hblocks : h.Unblocked now) (hle : now ≤ later) :
    h.Unblocked later :=
  fun i => (hblocks i).trans hle

/-- A new entry is not blocked. -/
theorem Unblocked.insertNetworkInfo (hblocks : h.Unblocked now) :
    (h.insertNetworkInfo ssid).1.Unblocked now := by
  intro i
  by_cases hi : i = h.nextIndex
  · simp [NetworkHistory.insertNetworkInfo, hi]
  · simpa [NetworkHistory.insertNetworkInfo, hi] using hblocks i

theorem Unblocked.ensureNetworkInfo (hblocks : h.Unblocked now) :
    (h.ensureNetworkInfo ssid).1.Unblocked now := by
  unfold NetworkHistory.ensureNetworkInfo
  cases h.findNetworkInfo ssid with
  | some entry => exact hblocks
  | none => exact hblocks.insertNetworkInfo

end NetworkHistory

end GbPlay.Esp.Network.History
