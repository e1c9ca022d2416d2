import GbPlay.Esp.SavedNetworks

/-!
# The list of a Wi-Fi scan

`wifi_scan` of `hardware/wifi.c`.  One loop leaves out the weak access points and
converts the others, with the index of the record for the destination too.
-/

namespace GbPlay.Esp.WifiScan

open GbPlay.Library GbPlay.Esp.SavedNetworks

def wifiMinimumRssi : Int8 := -80

inductive WifiAuthMode
  | open
  | secured (mode : Nat)
  deriving DecidableEq

/-- What `wifi_scan` reads of a record of the driver. -/
structure WifiApRecord where
  ssid : CharArray 33
  primary : UInt8
  rssi : Int8
  authmode : WifiAuthMode
  deriving DecidableEq

structure WifiApInfo where
  ssid : CharArray (wifiMaxSsidLength + 1)
  channel : Int8
  rssi : Int8
  requiresPassword : Bool
  deriving DecidableEq

def WifiApInfo.ofRecord (src : WifiApRecord) : WifiApInfo :=
  { ssid := .truncatedStringCopy _ src.ssid.str
    rssi := src.rssi
    channel := src.primary.toInt8
    requiresPassword := src.authmode ≠ .open }

def isStrong (src : WifiApRecord) : Bool := !(src.rssi < wifiMinimumRssi)

/-- The loop from record `i` on: `out_ap_list` and `total_aps_returned`. -/
def convertFrom (i : Nat) (outApList : List WifiApInfo) (totalApsReturned : Nat) :
    List WifiApRecord → List WifiApInfo × Nat
  | [] => (outApList, totalApsReturned)
  | src :: rest =>
      if src.rssi < wifiMinimumRssi then convertFrom (i + 1) outApList totalApsReturned rest
      else convertFrom (i + 1) (outApList.set i (.ofRecord src)) (totalApsReturned + 1) rest

/-- How the driver answers: the scan does not start, or these are the records it has. -/
inductive Scan
  | failed
  | records (tempApList : List WifiApRecord)

/-- `out_ap_list` and `*ap_count` after the call. -/
def wifiScan (outApList : List WifiApInfo) : Scan → List WifiApInfo × Nat
  | .failed => (outApList, 0)
  | .records tempApList => convertFrom 0 outApList 0 tempApList

variable {i k total : Nat} {out : List WifiApInfo} {aps : List WifiApRecord}

/-! ## What the loop writes -/

/-- The entry with the index of a record, once the loop has passed it. -/
def entry (src : WifiApRecord) (old : WifiApInfo) : WifiApInfo :=
  if isStrong src then .ofRecord src else old

/-- The strong records among these, in their order. -/
def strong (aps : List WifiApRecord) : List WifiApRecord := aps.filter isStrong

theorem convertFrom_cons (i : Nat) (out : List WifiApInfo) (total : Nat) (src : WifiApRecord)
    (rest : List WifiApRecord) :
    convertFrom i out total (src :: rest) =
      if isStrong src then convertFrom (i + 1) (out.set i (.ofRecord src)) (total + 1) rest
      else convertFrom (i + 1) out total rest := by
  rw [convertFrom]
  by_cases hweak : src.rssi < wifiMinimumRssi
  · simp [isStrong, hweak]
  · simp [isStrong, hweak]

theorem convertFrom_count (i : Nat) (out : List WifiApInfo) (total : Nat)
    (aps : List WifiApRecord) : (convertFrom i out total aps).2 = total + (strong aps).length := by
  induction aps generalizing i out total with
  | nil => rfl
  | cons src rest ih =>
      rw [convertFrom_cons, strong, List.filter_cons]
      split
      · rw [ih, List.length_cons, strong]
        omega
      · exact ih _ _ _

/-- A strong record overwrites the entry with its own index, a weak one leaves it. -/
theorem convertFrom_out (done old : List WifiApInfo) (total : Nat) {aps : List WifiApRecord}
    (hroom : aps.length ≤ old.length) :
    (convertFrom done.length (done ++ old) total aps).1 =
      done ++ List.zipWith entry aps old ++ old.drop aps.length := by
  induction aps generalizing done old total with
  | nil => simp [convertFrom]
  | cons src rest ih =>
      cases old with
      | nil => simp at hroom
      | cons first old =>
          have hrest : rest.length ≤ old.length := by simpa using hroom
          have hset : (done ++ first :: old).set done.length (.ofRecord src) =
              done ++ .ofRecord src :: old := by simp
          have hnext (new : WifiApInfo) (total : Nat) :
              (convertFrom (done.length + 1) (done ++ new :: old) total rest).1 =
                done ++ new :: List.zipWith entry rest old ++ old.drop rest.length := by
            have := ih (done ++ [new]) old total hrest
            simpa using this
          rw [convertFrom_cons, hset, List.zipWith_cons_cons, List.length_cons,
            List.drop_succ_cons, entry]
          split
          · exact hnext _ _
          · exact hnext _ _

/-! ## Which entries are filled -/

/-- `*ap_count` and as many entries of `out_ap_list` are the strong access points. -/
structure ReturnsStrong (aps : List WifiApRecord) (result : List WifiApInfo × Nat) : Prop where
  count : result.2 = (strong aps).length
  entries : result.1.take result.2 = (strong aps).map .ofRecord

/-- No weak record precedes a strong one. -/
def StrongFirst (aps : List WifiApRecord) : Prop :=
  aps.Pairwise fun src src' => isStrong src' = true → isStrong src = true

theorem strongFirst_cons_of_strong {src : WifiApRecord} (h : isStrong src = true) :
    StrongFirst (src :: aps) ↔ StrongFirst aps := by
  rw [StrongFirst, List.pairwise_cons]
  exact and_iff_right fun _ _ _ => h

theorem strongFirst_cons_of_weak {src : WifiApRecord} (h : ¬ isStrong src = true) :
    StrongFirst (src :: aps) ↔ strong aps = [] := by
  rw [StrongFirst, List.pairwise_cons, strong, List.filter_eq_nil_iff]
  constructor
  · rintro ⟨hweak, -⟩ src' hmem hstrong
    exact h (hweak src' hmem hstrong)
  · intro hweak
    refine ⟨fun src' hmem hstrong => absurd hstrong (hweak src' hmem), ?_⟩
    apply List.pairwise_of_forall_mem_list
    intro _ _ src' hmem hstrong
    exact absurd hstrong (hweak src' hmem)

theorem strong_length_le (aps : List WifiApRecord) : (strong aps).length ≤ aps.length :=
  List.length_filter_le _ _

theorem returnsStrong_wifiScan_iff (hroom : aps.length ≤ out.length) :
    ReturnsStrong aps (wifiScan out (.records aps)) ↔
      (List.zipWith entry aps out).take (strong aps).length = (strong aps).map .ofRecord := by
  have hcount : (wifiScan out (.records aps)).2 = (strong aps).length := by
    rw [wifiScan, convertFrom_count, Nat.zero_add]
  have hout : (wifiScan out (.records aps)).1 =
      List.zipWith entry aps out ++ out.drop aps.length := convertFrom_out [] out 0 hroom
  have hfits : (strong aps).length ≤ (List.zipWith entry aps out).length := by
    rw [List.length_zipWith, Nat.min_eq_left hroom]
    exact strong_length_le aps
  have htake : (wifiScan out (.records aps)).1.take (wifiScan out (.records aps)).2 =
      (List.zipWith entry aps out).take (strong aps).length := by
    rw [hout, hcount, List.take_append_of_le_length hfits]
  constructor
  · intro h
    rw [← htake, h.entries]
  · intro h
    exact ⟨hcount, htake.trans h⟩

/-- An entry that the conversion of the record does not give. -/
theorem exists_ne_ofRecord (src : WifiApRecord) : ∃ old, old ≠ WifiApInfo.ofRecord src := by
  refine ⟨{ WifiApInfo.ofRecord src with
    requiresPassword := !(WifiApInfo.ofRecord src).requiresPassword }, fun h => ?_⟩
  simpa using congrArg WifiApInfo.requiresPassword h

/-- The entries that the strong records fill are the first ones, whatever was in the array
before, just when the strong records come first. -/
theorem filled_iff_strongFirst {size : Nat} (hsize : aps.length ≤ size) :
    (∀ out : List WifiApInfo, size ≤ out.length →
      (List.zipWith entry aps out).take (strong aps).length = (strong aps).map .ofRecord) ↔
      StrongFirst aps := by
  induction aps generalizing size with
  | nil => simp [strong, StrongFirst]
  | cons src rest ih =>
      obtain ⟨size, rfl⟩ : ∃ n, size = n + 1 := Nat.exists_eq_add_one_of_ne_zero (by
        rw [List.length_cons] at hsize
        omega)
      have hrest : rest.length ≤ size := by simpa using hsize
      by_cases hsrc : isStrong src = true
      · have hcons : strong (src :: rest) = src :: strong rest := List.filter_cons_of_pos hsrc
        rw [hcons, strongFirst_cons_of_strong hsrc, ← ih hrest]
        constructor
        · intro h out hroom
          have hall := h (.ofRecord src :: out) (by simpa using hroom)
          simpa [entry, hsrc] using hall
        · intro h out hroom
          cases out with
          | nil => simp at hroom
          | cons old out =>
              have hfilled := h out (by simpa using hroom)
              simpa [entry, hsrc] using hfilled
      · have hcons : strong (src :: rest) = strong rest := List.filter_cons_of_neg hsrc
        rw [hcons, strongFirst_cons_of_weak hsrc]
        constructor
        · -- the first entry keeps what it had, which need not be the first strong record
          intro h
          by_contra hsome
          obtain ⟨first, others, hfirst⟩ := List.exists_cons_of_ne_nil hsome
          obtain ⟨old, hold⟩ := exists_ne_ofRecord first
          have hall := h (old :: List.replicate size old) (by simp)
          rw [hfirst] at hall
          simp only [List.length_cons, List.zipWith_cons_cons, List.take_succ_cons,
            List.map_cons, List.cons.injEq, entry, if_neg hsrc] at hall
          exact hold hall.1
        · intro hnil out _
          rw [hnil]
          rfl

/-- A list in the order of falling signal strength has its strong records first. -/
theorem strongFirst_of_descending (h : aps.Pairwise fun src src' => src'.rssi ≤ src.rssi) :
    StrongFirst aps := by
  refine h.imp fun {src src'} hle hstrong => ?_
  rw [isStrong, Bool.not_eq_true', decide_eq_false_iff_not] at hstrong ⊢
  exact fun hweak => hstrong (Int8.lt_of_le_of_lt hle hweak)

/-- The scan returns just the strong access points, whatever the array held before, if and
only if the driver lists no weak one before a strong one. -/
theorem returnsStrong_iff_strongFirst {apCount : Nat} (hcount : aps.length ≤ apCount) :
    (∀ out : List WifiApInfo, apCount ≤ out.length →
      ReturnsStrong aps (wifiScan out (.records aps))) ↔ StrongFirst aps := by
  rw [← filled_iff_strongFirst hcount]
  exact forall₂_congr fun out hroom => returnsStrong_wifiScan_iff (hcount.trans hroom)

def openAp (primary : UInt8) (rssi : Int8) : WifiApRecord := ⟨.zero _, primary, rssi, .open⟩

/-- `wifi_ap_info available_aps[SCAN_LIST_SIZE] = {0}` -/
def availableAps : List WifiApInfo := List.replicate 10 ⟨.zero _, 0, 0, false⟩

theorem returnsStrong_iff_strongFirst_weakLast :
    ReturnsStrong [openAp 1 (-50), openAp 11 (-70), openAp 6 (-90)]
      (wifiScan availableAps (.records [openAp 1 (-50), openAp 11 (-70), openAp 6 (-90)])) := by
  have hcount : [openAp 1 (-50), openAp 11 (-70), openAp 6 (-90)].length ≤ 10 := by decide
  refine (returnsStrong_iff_strongFirst hcount).mpr ?_ availableAps (by decide)
  exact strongFirst_of_descending (by decide)

/-- With the weak record in the middle, the second entry returned is not filled and the
second strong access point is missing. -/
theorem weak_record_leaves_hole :
    ¬ ReturnsStrong [openAp 1 (-50), openAp 6 (-90), openAp 11 (-70)]
      (wifiScan availableAps (.records [openAp 1 (-50), openAp 6 (-90), openAp 11 (-70)])) :=
  fun h => absurd h.entries (by decide)

end GbPlay.Esp.WifiScan
