import GbPlay.Esp.SavedNetworks
import GbPlay.Library.Operations
import GbPlay.Library.OrderedMap

/-!
# The saved networks are a bounded map

Seen from outside, the store is an insertion-ordered map from SSIDs to
passwords with room for `WIFI_MAX_SAVED_NETWORKS` entries, which a restart
leaves alone.  The table in memory holds the entries of the map from slot 0 on
and zeros behind them.
-/

namespace GbPlay.Esp.SavedNetworksMap

open GbPlay.Library
open GbPlay.Library.Operations
open GbPlay.Esp.SavedNetworks

/-! ## The map -/

abbrev NetworkMap := OrderedMap CString CString

namespace NetworkMap

def perform (m : NetworkMap) : Op → NetworkMap × Result
  | .save ssid password =>
      let (m', didSave) := m.setWithin wifiMaxSavedNetworks ssid password
      (m', .saved didSave)
  | .forget ssid => (m.erase ssid, .forgotten)
  | .get ssid => (m, .found ((m.get? ssid).map fun password => (ssid, password)))
  | .getAll => (m, .all m.entries)
  | .restart => (m, .restarted)

end NetworkMap

/-! ## The table that represents a map -/

/-- An entry of the table. -/
def credentials (e : CString × CString) : WifiNetworkCredentials :=
  ⟨.truncatedStringCopy _ e.1, .truncatedStringCopy _ e.2⟩

theorem strings_credentials {e : CString × CString} (h : WithinLimits e.1 e.2) :
    (credentials e).strings = e := by
  obtain ⟨hssid, hpass⟩ := h
  simp only [WifiNetworkCredentials.strings, credentials,
    CharArray.str_truncatedStringCopy_of_length_le hssid,
    CharArray.str_truncatedStringCopy_of_length_le hpass]

theorem ssid_credentials {e : CString × CString} (h : WithinLimits e.1 e.2) :
    (credentials e).ssid.str = e.1 :=
  congrArg Prod.fst (strings_credentials h)

/-- The slots of a table with the entries `es` in front. -/
def slots (es : List (CString × CString)) : List WifiNetworkCredentials :=
  es.map credentials ++ List.replicate (wifiMaxSavedNetworks - es.length) .zero

structure Represents (t : WifiSavedNetworkInfo) (m : NetworkMap) : Prop where
  networks : t.networks = slots m.entries
  count : t.count = m.size
  limits : ∀ e ∈ m.entries, WithinLimits e.1 e.2

theorem represents_zero : Represents .zero .empty :=
  ⟨rfl, rfl, by simp⟩

section Represented

variable {t : WifiSavedNetworkInfo} {m : NetworkMap} (h : Represents t m)

include h

theorem size_le : m.size ≤ wifiMaxSavedNetworks := by
  have hsize := t.size
  rw [h.networks, slots, List.length_append, List.length_map, List.length_replicate] at hsize
  show m.entries.length ≤ wifiMaxSavedNetworks
  omega

theorem network_entry {i : Nat} (hi : i < m.entries.length) :
    t.network i = credentials m.entries[i] := by
  rw [WifiSavedNetworkInfo.network, h.networks, slots, List.getD_eq_getElem?_getD,
    List.getElem?_append_left (by simpa using hi)]
  simp [hi]

theorem network_free {i : Nat} (hi : m.entries.length ≤ i) : t.network i = .zero := by
  rw [WifiSavedNetworkInfo.network, h.networks, slots, List.getD_eq_getElem?_getD,
    List.getElem?_append_right (by simpa using hi), List.getElem?_replicate]
  split <;> rfl

theorem ssid_entry {i : Nat} (hi : i < m.entries.length) :
    (t.network i).ssid.str = m.entries[i].1 := by
  rw [network_entry h hi, ssid_credentials (h.limits _ (List.getElem_mem hi))]

/-! ## Looking up -/

theorem getSavedNetwork_none {ssid : CString} (hnew : ssid ∉ m.keys) :
    t.getSavedNetwork ssid = none := by
  rw [WifiSavedNetworkInfo.getSavedNetwork, List.find?_eq_none]
  intro i hi
  have hlt : i < m.entries.length := by
    rw [List.mem_range, h.count] at hi
    exact hi
  rw [ssid_entry h hlt, decide_eq_true_eq]
  intro heq
  apply hnew
  rw [← heq]
  exact List.mem_map_of_mem (List.getElem_mem hlt)

theorem getSavedNetwork_some {ssid password : CString} {pre post : List (CString × CString)}
    (hsplit : m.entries = pre ++ (ssid, password) :: post) :
    t.getSavedNetwork ssid = some pre.length := by
  have hlen : m.entries.length = pre.length + (post.length + 1) := by simp [hsplit]
  rw [WifiSavedNetworkInfo.getSavedNetwork, List.find?_range_eq_some]
  refine ⟨?_, ?_, ?_⟩
  · rw [ssid_entry h (by omega)]
    simp [hsplit]
  · rw [List.mem_range, h.count]
    show pre.length < m.entries.length
    omega
  · intro j hj
    have hne := (OrderedMap.ne_of_mem_split hsplit).1 pre[j] (List.getElem_mem hj)
    rw [ssid_entry h (by omega)]
    simpa [hsplit, List.getElem_append_left hj] using hne

theorem getAll_entries :
    ((List.range t.count).map t.network).map WifiNetworkCredentials.strings = m.entries := by
  apply List.ext_getElem
  · simp [h.count, OrderedMap.size]
  · intro i hi hi'
    simp only [List.getElem_map, List.getElem_range]
    rw [network_entry h hi', strings_credentials (h.limits _ (List.getElem_mem hi'))]

end Represented

/-! ## Writing one slot -/

section Slots

variable {t : WifiSavedNetworkInfo} {ap : WifiNetworkCredentials}
  {pre post : List WifiNetworkCredentials}

theorem network_of_split (h : t.networks = pre ++ ap :: post) : t.network pre.length = ap := by
  rw [WifiSavedNetworkInfo.network, h, List.getD_eq_getElem?_getD,
    List.getElem?_append_right (le_refl _), Nat.sub_self]
  rfl

theorem write_of_split (h : t.networks = pre ++ ap :: post) (c : WifiNetworkCredentials) :
    (t.write pre.length c).networks = pre ++ c :: post := by
  show t.networks.set pre.length c = pre ++ c :: post
  rw [h, List.set_append_right _ _ (le_refl _), Nat.sub_self]
  rfl

end Slots

/-! ## Saving -/

theorem slots_split (pre post : List (CString × CString)) (e : CString × CString) :
    slots (pre ++ e :: post) = pre.map credentials ++ credentials e ::
      (post.map credentials ++
        List.replicate (wifiMaxSavedNetworks - (pre ++ e :: post).length) .zero) := by
  simp [slots]

/-- Replacing the password of an entry keeps its place and its SSID. -/
theorem represents_replacePass {t : WifiSavedNetworkInfo} {m : NetworkMap} (h : Represents t m)
    {ssid password old : CString} {pre post : List (CString × CString)}
    (hsplit : m.entries = pre ++ (ssid, old) :: post) (hlimits : WithinLimits ssid password) :
    Represents (t.replacePass pre.length password) (m.set ssid password) := by
  have hentries := OrderedMap.entries_set_of_split hsplit password
  have hnetworks := h.networks
  rw [hsplit, slots_split] at hnetworks
  have hlen : pre.length = (pre.map credentials).length := by simp
  refine ⟨?_, ?_, ?_⟩
  · rw [WifiSavedNetworkInfo.replacePass, hlen, network_of_split hnetworks,
      write_of_split hnetworks, hentries, slots_split]
    simp [credentials]
  · show t.count = (m.set ssid password).entries.length
    rw [h.count, OrderedMap.size, hentries, hsplit]
    simp
  · intro e he
    rw [hentries, List.mem_append, List.mem_cons] at he
    obtain hpre | rfl | hpost := he
    · exact h.limits e (by simp [hsplit, hpre])
    · exact hlimits
    · exact h.limits e (by simp [hsplit, hpost])

/-- A new entry goes into the first free slot. -/
theorem represents_append {t : WifiSavedNetworkInfo} {m : NetworkMap} (h : Represents t m)
    {ssid password : CString} (hnew : ssid ∉ m.keys) (hroom : m.size < wifiMaxSavedNetworks)
    (hlimits : WithinLimits ssid password) :
    Represents (t.append ssid password) (m.set ssid password) := by
  have hentries := OrderedMap.entries_set_of_not_mem password hnew
  obtain ⟨free, hfree⟩ : ∃ free, wifiMaxSavedNetworks - m.entries.length = free + 1 :=
    ⟨wifiMaxSavedNetworks - m.entries.length - 1, by
      have : m.entries.length < wifiMaxSavedNetworks := hroom
      omega⟩
  have hnetworks :
      t.networks = m.entries.map credentials ++ .zero :: List.replicate free .zero := by
    rw [h.networks, slots, hfree, List.replicate_succ]
  have hlen : t.count = (m.entries.map credentials).length := by simp [h.count, OrderedMap.size]
  refine ⟨?_, ?_, ?_⟩
  · show (t.write t.count _).networks = _
    rw [hlen, write_of_split hnetworks, hentries, slots_split]
    have hrest : wifiMaxSavedNetworks - (m.entries ++ [(ssid, password)]).length = free := by
      rw [List.length_append, List.length_singleton]
      omega
    rw [hrest]
    rfl
  · show t.count + 1 = (m.set ssid password).entries.length
    rw [h.count, hentries, List.length_append]
    rfl
  · intro e he
    rw [hentries, List.mem_append, List.mem_singleton] at he
    obtain hold | rfl := he
    · exact h.limits e hold
    · exact hlimits

/-- Saving does to the table what it does to the map, and fails when the map has
no room. -/
theorem save_represents {t : WifiSavedNetworkInfo} {m : NetworkMap} (h : Represents t m)
    {ssid password : CString} (hlimits : WithinLimits ssid password) :
    (∃ t', t.save ssid password = some t' ∧ Represents t' (m.set ssid password) ∧
      m.setWithin wifiMaxSavedNetworks ssid password = (m.set ssid password, true)) ∨
    (t.save ssid password = none ∧
      m.setWithin wifiMaxSavedNetworks ssid password = (m, false)) := by
  by_cases hknown : ssid ∈ m.keys
  · obtain ⟨pre, old, post, hsplit⟩ := OrderedMap.exists_split hknown
    left
    refine ⟨t.replacePass pre.length password, ?_, represents_replacePass h hsplit hlimits,
      OrderedMap.setWithin_of_mem _ _ hknown⟩
    rw [WifiSavedNetworkInfo.save, getSavedNetwork_some h hsplit]
  · have hsave : t.save ssid password =
        if m.size < wifiMaxSavedNetworks then some (t.append ssid password) else none := by
      rw [WifiSavedNetworkInfo.save, getSavedNetwork_none h hknown, h.count]
    by_cases hroom : m.size < wifiMaxSavedNetworks
    · left
      exact ⟨t.append ssid password, hsave.trans (if_pos hroom),
        represents_append h hknown hroom hlimits, OrderedMap.setWithin_of_room _ _ hroom⟩
    · right
      exact ⟨hsave.trans (if_neg hroom),
        OrderedMap.setWithin_full _ hknown (Nat.not_lt.mp hroom)⟩

/-! ## Forgetting

The loop passes the entries before the network unchanged, zeroes its slot, and
moves each later entry into the zeroed slot before it. -/

section Forget

open WifiSavedNetworkInfo (forgetEntry)

variable {ssid : CString}

theorem foldl_forgetEntry_search {t : WifiSavedNetworkInfo} (pre : List WifiNetworkCredentials)
    {mid post : List WifiNetworkCredentials} (h : t.networks = pre ++ (mid ++ post))
    (hmid : ∀ ap ∈ mid, ap.ssid.str ≠ ssid) :
    (List.range' pre.length mid.length).foldl (forgetEntry ssid) (t, false) = (t, false) := by
  induction mid generalizing pre with
  | nil => rfl
  | cons ap mid ih =>
      have hne : ap.ssid.str ≠ ssid := hmid ap List.mem_cons_self
      have hstep : forgetEntry ssid (t, false) pre.length = (t, false) := by
        simp only [forgetEntry, network_of_split (show t.networks = pre ++ ap :: _ from h),
          if_neg hne]
        rfl
      have hrest := ih (pre ++ [ap]) (by rw [h]; simp)
        fun c hc => hmid c (List.mem_cons_of_mem ap hc)
      rw [List.length_append, List.length_singleton] at hrest
      rw [List.length_cons, List.range'_succ, List.foldl_cons, hstep]
      exact hrest

theorem foldl_forgetEntry_shift (ssid : CString) {t : WifiSavedNetworkInfo}
    {pre mid post : List WifiNetworkCredentials} (h : t.networks = pre ++ .zero :: (mid ++ post)) :
    ∃ t', (List.range' (pre.length + 1) mid.length).foldl (forgetEntry ssid) (t, true) =
        (t', true) ∧
      t'.networks = pre ++ (mid ++ .zero :: post) ∧ t'.count = t.count := by
  induction mid generalizing t pre with
  | nil => exact ⟨t, rfl, h, rfl⟩
  | cons ap mid ih =>
      have hlen : pre.length + 1 = (pre ++ [WifiNetworkCredentials.zero]).length := by simp
      have hsplit : t.networks =
          (pre ++ [WifiNetworkCredentials.zero]) ++ ap :: (mid ++ post) := by
        rw [h]
        simp
      have hread : t.network (pre.length + 1) = ap := by
        rw [hlen]
        exact network_of_split hsplit
      let t₁ := t.write pre.length ap
      have h₁ : t₁.networks = (pre ++ [ap]) ++ ap :: (mid ++ post) := by
        rw [show t₁.networks = pre ++ ap :: (ap :: mid ++ post) from write_of_split h ap]
        simp
      let t₂ := t₁.write (pre ++ [ap]).length .zero
      have h₂ : t₂.networks = (pre ++ [ap]) ++ .zero :: (mid ++ post) := write_of_split h₁ .zero
      have hstep : forgetEntry ssid (t, true) (pre.length + 1) = (t₂, true) := by
        simp only [forgetEntry, hread, if_true, Nat.add_sub_cancel]
        simp [t₂, t₁]
      obtain ⟨t', hfold, hnetworks, hcount⟩ := ih h₂
      rw [List.length_append, List.length_singleton] at hfold
      refine ⟨t', ?_, ?_, ?_⟩
      · rw [List.length_cons, List.range'_succ, List.foldl_cons, hstep]
        exact hfold
      · rw [hnetworks]
        simp
      · rw [hcount]
        rfl

/-- The indices up to, at and after position `a`. -/
theorem range_split (a b : Nat) :
    List.range (a + (b + 1)) = List.range' 0 a ++ a :: List.range' (a + 1) b := by
  rw [List.range_eq_range', ← List.range'_append_1, List.range'_succ, Nat.zero_add]

variable {t : WifiSavedNetworkInfo} {m : NetworkMap} (h : Represents t m)

include h

theorem ssid_ne_of_entries {es : List (CString × CString)} (hes : ∀ e ∈ es, e ∈ m.entries)
    (hne : ∀ e ∈ es, e.1 ≠ ssid) : ∀ ap ∈ es.map credentials, ap.ssid.str ≠ ssid := by
  intro ap hap
  obtain ⟨e, he, rfl⟩ := List.mem_map.mp hap
  rw [ssid_credentials (h.limits e (hes e he))]
  exact hne e he

theorem forget_missing (hnew : ssid ∉ m.keys) : t.forget ssid = none := by
  have hne : ∀ ap ∈ m.entries.map credentials, ap.ssid.str ≠ ssid := by
    apply ssid_ne_of_entries h fun e he => he
    intro e he hek
    exact hnew (hek ▸ List.mem_map_of_mem he)
  have hloop := foldl_forgetEntry_search [] h.networks hne
  have hcount : t.count = (m.entries.map credentials).length := by
    rw [h.count, List.length_map]
    rfl
  rw [WifiSavedNetworkInfo.forget, hcount, List.range_eq_range']
  simp only [List.length_nil] at hloop
  rw [hloop]
  rfl

theorem forget_found (hknown : ssid ∈ m.keys) :
    ∃ t', t.forget ssid = some t' ∧ Represents t' (m.erase ssid) := by
  obtain ⟨pre, password, post, hsplit⟩ := OrderedMap.exists_split hknown
  have herase := OrderedMap.entries_erase_of_split hsplit
  have hnetworks := h.networks
  rw [hsplit, slots_split] at hnetworks
  have hcount : t.count = (pre.map credentials).length + ((post.map credentials).length + 1) := by
    simp [h.count, OrderedMap.size, hsplit]
  -- the entries before the network
  have hsearch := foldl_forgetEntry_search [] hnetworks
    (ssid_ne_of_entries h (by simp [hsplit]; tauto) (OrderedMap.ne_of_mem_split hsplit).1)
  -- its own slot
  have hssid : (credentials (ssid, password)).ssid.str = ssid :=
    ssid_credentials (h.limits (ssid, password) (by simp [hsplit]))
  let t₁ := t.write (pre.map credentials).length .zero
  have hzero : forgetEntry ssid (t, false) (pre.map credentials).length = (t₁, true) := by
    simp only [forgetEntry, network_of_split hnetworks, if_pos hssid]
    rfl
  -- the entries behind it
  obtain ⟨t', hshift, hnetworks', hcount'⟩ :=
    foldl_forgetEntry_shift ssid (write_of_split hnetworks .zero)
  have hloop : (List.range t.count).foldl (forgetEntry ssid) (t, false) = (t', true) := by
    rw [hcount, range_split, List.foldl_append, List.foldl_cons]
    rw [List.length_nil] at hsearch
    rw [hsearch, hzero, hshift]
  refine ⟨{ t' with count := t'.count - 1 }, ?_, ?_, ?_, ?_⟩
  · rw [WifiSavedNetworkInfo.forget, hloop]
    rfl
  · show t'.networks = slots (m.erase ssid).entries
    have hle := size_le h
    rw [OrderedMap.size, hsplit, List.length_append, List.length_cons] at hle
    have hfree : wifiMaxSavedNetworks - (pre ++ post).length =
        wifiMaxSavedNetworks - (pre ++ (ssid, password) :: post).length + 1 := by
      rw [List.length_append, List.length_append, List.length_cons]
      omega
    rw [hnetworks', herase, slots, hfree, List.replicate_succ]
    simp
  · show t'.count - 1 = (m.erase ssid).entries.length
    rw [hcount', show t₁.count = t.count from rfl, hcount, herase]
    simp
  · intro e he
    rw [herase, List.mem_append] at he
    apply h.limits
    rw [hsplit, List.mem_append, List.mem_cons]
    tauto

end Forget

/-! ## The whole store -/

section Store

variable {S : Storage WifiSavedNetworkInfo} {w : Wifi S} {m : NetworkMap} {op : Op}

/-- The blob in storage is the table in memory.  Before the first flush there is
no blob, and the table is the zeroed one that a restart would start with. -/
def Stored (w : Wifi S) : Prop :=
  S.getBlob w.flash wifiSavedNetworksStorageKey = some w.savedNetworks ∨
    S.getBlob w.flash wifiSavedNetworksStorageKey = none ∧ w.savedNetworks = .zero

/-- Something has been flushed. -/
def Flushed (w : Wifi S) : Prop :=
  (S.getBlob w.flash wifiSavedNetworksStorageKey).isSome

theorem getBlob_flush (w : Wifi S) :
    S.getBlob (wifiFlushSavedNetworks w).flash wifiSavedNetworksStorageKey =
      some (wifiFlushSavedNetworks w).savedNetworks :=
  S.getBlob_setBlob _ _ _

theorem flushed_flush (w : Wifi S) : Flushed (wifiFlushSavedNetworks w) := by
  rw [Flushed, getBlob_flush]
  rfl

theorem Stored.getBlob_of_flushed (h : Stored w) (hflushed : Flushed w) :
    S.getBlob w.flash wifiSavedNetworksStorageKey = some w.savedNetworks := by
  obtain hblob | ⟨hnone, _⟩ := h
  · exact hblob
  · simp [Flushed, hnone] at hflushed

/-- A restart restores the table. -/
theorem Stored.wifiInitialize_flash (h : Stored w) : wifiInitialize w.flash = w := by
  unfold wifiInitialize
  obtain hblob | ⟨hnone, hzero⟩ := h
  · rw [hblob]
  · rw [hnone, ← hzero]

structure Simulates (w : Wifi S) (m : NetworkMap) : Prop where
  table : Represents w.savedNetworks m
  stored : Stored w

theorem simulates_wifiInitialize {flash : S.State}
    (h : S.getBlob flash wifiSavedNetworksStorageKey = none) :
    Simulates (wifiInitialize flash) .empty := by
  have hinit : wifiInitialize flash = ⟨.zero, flash⟩ := by
    rw [wifiInitialize, h]
  rw [hinit]
  exact ⟨represents_zero, Or.inr ⟨h, rfl⟩⟩

theorem perform_simulates (hop : op.Allowed) (h : Simulates w m) :
    Simulates (perform w op).1 (NetworkMap.perform m op).1 ∧
      (perform w op).2 = (NetworkMap.perform m op).2 := by
  cases op with
  | save ssid password =>
      obtain ⟨t, hsave, htable, hmap⟩ | ⟨hsave, hmap⟩ := save_represents h.table hop
      · simp only [perform, wifiSaveNetwork, NetworkMap.perform, hsave, hmap, and_true]
        exact ⟨htable, Or.inl (getBlob_flush _)⟩
      · simp only [perform, wifiSaveNetwork, NetworkMap.perform, hsave, hmap, and_true]
        exact h
  | forget ssid =>
      simp only [perform, wifiForgetNetwork, NetworkMap.perform, and_true]
      by_cases hknown : ssid ∈ m.keys
      · obtain ⟨t, hforget, htable⟩ := forget_found h.table hknown
        rw [hforget]
        exact ⟨htable, Or.inl (getBlob_flush _)⟩
      · rw [forget_missing h.table hknown, OrderedMap.erase_of_not_mem hknown]
        exact h
  | get ssid =>
      refine ⟨h, ?_⟩
      simp only [perform, wifiGetSavedNetwork, NetworkMap.perform]
      by_cases hknown : ssid ∈ m.keys
      · obtain ⟨pre, password, post, hsplit⟩ := OrderedMap.exists_split hknown
        have hlt : pre.length < m.entries.length := by
          rw [hsplit, List.length_append, List.length_cons]
          omega
        have hentry : m.entries[pre.length] = (ssid, password) := by simp [hsplit]
        have hlimits := h.table.limits _ (List.getElem_mem hlt)
        rw [getSavedNetwork_some h.table hsplit, OrderedMap.get?_of_split hsplit, Option.map_some,
          Option.map_some, Option.map_some, network_entry h.table hlt,
          strings_credentials hlimits, hentry]
      · rw [getSavedNetwork_none h.table hknown, OrderedMap.get?_eq_none hknown]
        rfl
  | getAll =>
      refine ⟨h, ?_⟩
      show Result.all _ = Result.all _
      rw [wifiGetAllSavedNetworks, getAll_entries h.table]
  | restart =>
      refine ⟨?_, rfl⟩
      show Simulates (wifiInitialize w.flash) m
      rw [h.stored.wifiInitialize_flash]
      exact h

/-- Storage is never erased. -/
theorem flushed_perform (op : Op) (h : Flushed w) : Flushed (perform w op).1 := by
  cases op with
  | save ssid password =>
      simp only [perform, wifiSaveNetwork]
      cases w.savedNetworks.save ssid password with
      | none => exact h
      | some t => exact flushed_flush _
  | forget ssid =>
      simp only [perform, wifiForgetNetwork]
      cases w.savedNetworks.forget ssid with
      | none => exact h
      | some t => exact flushed_flush _
  | get ssid => exact h
  | getAll => exact h
  | restart =>
      have hflash : (wifiInitialize w.flash).flash = w.flash := by
        unfold wifiInitialize
        split <;> rfl
      show Flushed (wifiInitialize w.flash)
      rw [Flushed, hflash]
      exact h

theorem flushed_of_saved (h : (perform w op).2 = .saved true) : Flushed (perform w op).1 := by
  cases op with
  | save ssid password =>
      simp only [perform, wifiSaveNetwork] at h ⊢
      cases hsave : w.savedNetworks.save ssid password with
      | none => simp [hsave] at h
      | some t => exact flushed_flush _
  | forget ssid => cases h
  | get ssid => cases h
  | getAll => cases h
  | restart => cases h

/-- What holds of the store after every operation. -/
structure Consistent (w : Wifi S) : Prop where
  count_le : w.savedNetworks.count ≤ wifiMaxSavedNetworks
  distinct : ∀ i < w.savedNetworks.count, ∀ j < w.savedNetworks.count,
    (w.savedNetworks.network i).ssid.str = (w.savedNetworks.network j).ssid.str → i = j
  zeroed : ∀ i, w.savedNetworks.count ≤ i → i < wifiMaxSavedNetworks →
    w.savedNetworks.network i = .zero
  terminated : w.savedNetworks.Terminated
  stored : Stored w

theorem consistent_of_simulates (h : Simulates w m) : Consistent w := by
  have hcount : w.savedNetworks.count = m.entries.length := h.table.count
  refine ⟨?_, ?_, ?_, ?_, h.stored⟩
  · rw [hcount]
    exact size_le h.table
  · intro i hi j hj hij
    rw [hcount] at hi hj
    rw [ssid_entry h.table hi, ssid_entry h.table hj] at hij
    have hi' : i < (m.entries.map Prod.fst).length := by simpa using hi
    have hj' : j < (m.entries.map Prod.fst).length := by simpa using hj
    have hkeys : (m.entries.map Prod.fst)[i] = (m.entries.map Prod.fst)[j] := by
      simpa using hij
    exact (List.Nodup.getElem_inj_iff m.nodup).mp hkeys
  · intro i hi _
    exact network_free h.table (hcount ▸ hi)
  · intro i
    by_cases hi : i < m.entries.length
    · rw [network_entry h.table hi]
      exact ⟨CharArray.terminated_truncatedStringCopy _ _,
        CharArray.terminated_truncatedStringCopy _ _⟩
    · rw [network_free h.table (Nat.le_of_not_lt hi)]
      exact WifiNetworkCredentials.terminated_zero

end Store

/-! ## Every sequence of operations -/

/-- From empty storage, whatever is saved, forgotten, looked up and reloaded, the
results are those of the map, and the table stays consistent; from the first
successful save on, the stored blob exists and equals the table. -/
theorem savedNetworks_refine_map (S : Storage WifiSavedNetworkInfo) (flash : S.State)
    (hempty : S.getBlob flash wifiSavedNetworksStorageKey = none) (ops : List Op)
    (hops : ∀ op ∈ ops, op.Allowed) :
    results perform (wifiInitialize flash) ops = results NetworkMap.perform .empty ops ∧
    Consistent (final perform (wifiInitialize flash) ops) ∧
    (.saved true ∈ results perform (wifiInitialize flash) ops →
      S.getBlob (final perform (wifiInitialize flash) ops).flash wifiSavedNetworksStorageKey =
        some (final perform (wifiInitialize flash) ops).savedNetworks) := by
  obtain ⟨hfinal, hresults⟩ := refines (fun _ _ _ => perform_simulates) hops
    (simulates_wifiInitialize hempty)
  refine ⟨hresults, consistent_of_simulates hfinal, ?_⟩
  intro hsaved
  have hflushed : Flushed (final perform (wifiInitialize flash) ops) :=
    final_of_result (Q := (· = .saved true)) (fun _ => flushed_perform)
      (fun _ _ => flushed_of_saved) ⟨_, hsaved, rfl⟩
  exact hfinal.stored.getBlob_of_flushed hflushed

/-- Storage that remembers the last blob of each key. -/
def lastWritten : Storage WifiSavedNetworkInfo where
  State := String → Option WifiSavedNetworkInfo
  getBlob s key := s key
  setBlob s key blob := fun key' => if key' = key then some blob else s key'
  getBlob_setBlob _ _ _ := if_pos rfl

/-- Five networks fill the table; a sixth is refused until one is forgotten, and
a restart keeps what was saved. -/
theorem savedNetworks_refine_map_full :
    let ssid (b : UInt8) (h : b ≠ 0) : CString := ⟨[b], by simpa using h⟩
    let a := ssid 97 (by decide)
    let b := ssid 98 (by decide)
    let c := ssid 99 (by decide)
    let d := ssid 100 (by decide)
    let e := ssid 101 (by decide)
    let f := ssid 102 (by decide)
    results perform (wifiInitialize (S := lastWritten) fun _ => none)
      [.save a d, .save b d, .save c d, .save d d, .save e d, .save f d, .save c f, .forget b,
        .save f a, .restart, .get c, .get b, .getAll] =
      [.saved true, .saved true, .saved true, .saved true, .saved true, .saved false,
        .saved true, .forgotten, .saved true, .restarted, .found (some (c, f)), .found none,
        .all [(a, d), (c, f), (d, d), (e, d), (f, a)]] := by
  intro ssid a b c d e f
  have h := savedNetworks_refine_map lastWritten (fun _ => none) rfl
    [.save a d, .save b d, .save c d, .save d d, .save e d, .save f d, .save c f, .forget b,
      .save f a, .restart, .get c, .get b, .getAll]
    (by simp [Op.Allowed, WithinLimits, CString.length, wifiMaxSsidLength, wifiMaxPassLength,
      a, b, c, d, e, f, ssid])
  rw [h.1]
  decide

end GbPlay.Esp.SavedNetworksMap
