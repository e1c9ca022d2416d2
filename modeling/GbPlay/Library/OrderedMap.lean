import Mathlib.Data.List.Nodup
import Mathlib.Tactic.Common

/-!
# Insertion-ordered maps

A finite map that remembers the order in which its keys were first set:
setting a present key replaces its value in place, setting a new one appends,
erasing keeps the order of the rest.  The keys are distinct by construction.
-/

namespace GbPlay.Library

/-- An association list with distinct keys, in order of insertion. -/
structure OrderedMap (κ ν : Type*) where
  entries : List (κ × ν)
  nodup : (entries.map Prod.fst).Nodup

namespace OrderedMap

variable {κ ν : Type*}

def empty : OrderedMap κ ν := ⟨[], List.nodup_nil⟩

def keys (m : OrderedMap κ ν) : List κ := m.entries.map Prod.fst

def size (m : OrderedMap κ ν) : Nat := m.entries.length

@[ext] theorem ext {m m' : OrderedMap κ ν} (h : m.entries = m'.entries) : m = m' := by
  cases m
  cases m'
  congr

@[simp] theorem entries_empty : (empty : OrderedMap κ ν).entries = [] := rfl

theorem nodup_keys (m : OrderedMap κ ν) : m.keys.Nodup := m.nodup

theorem mem_keys {m : OrderedMap κ ν} {k : κ} : k ∈ m.keys ↔ ∃ v, (k, v) ∈ m.entries := by
  simp [keys]

/-- A key has one value. -/
theorem value_unique {m : OrderedMap κ ν} {k : κ} {v w : ν} (hv : (k, v) ∈ m.entries)
    (hw : (k, w) ∈ m.entries) : v = w := by
  have h := List.inj_on_of_nodup_map m.nodup hv hw rfl
  exact congrArg Prod.snd h

/-! ## The entry of a present key -/

theorem exists_split {m : OrderedMap κ ν} {k : κ} (h : k ∈ m.keys) :
    ∃ pre v post, m.entries = pre ++ (k, v) :: post := by
  obtain ⟨v, hmem⟩ := mem_keys.mp h
  obtain ⟨pre, post, hsplit⟩ := List.append_of_mem hmem
  exact ⟨pre, v, post, hsplit⟩

section Split

variable {m : OrderedMap κ ν} {k : κ} {v : ν} {pre post : List (κ × ν)}

theorem ne_of_mem_split (h : m.entries = pre ++ (k, v) :: post) :
    (∀ e ∈ pre, e.1 ≠ k) ∧ ∀ e ∈ post, e.1 ≠ k := by
  have hnodup := m.nodup
  rw [h, List.map_append, List.map_cons, List.nodup_append, List.nodup_cons] at hnodup
  obtain ⟨_, ⟨hpost, _⟩, hdisjoint⟩ := hnodup
  constructor
  · intro e he
    exact hdisjoint e.1 (List.mem_map_of_mem he) k List.mem_cons_self
  · intro e he hek
    exact hpost (List.mem_map.mpr ⟨e, he, hek⟩)

theorem mem_keys_of_split (h : m.entries = pre ++ (k, v) :: post) : k ∈ m.keys :=
  mem_keys.mpr ⟨v, by simp [h]⟩

end Split

variable [DecidableEq κ]

def get? (m : OrderedMap κ ν) (k : κ) : Option ν :=
  (m.entries.find? fun e => e.1 = k).map Prod.snd

def has (m : OrderedMap κ ν) (k : κ) : Bool := k ∈ m.keys

theorem get?_eq_some_iff {m : OrderedMap κ ν} {k : κ} {v : ν} :
    m.get? k = some v ↔ (k, v) ∈ m.entries := by
  constructor
  · intro h
    obtain ⟨e, he, rfl⟩ := Option.map_eq_some_iff.mp h
    have hk : e.1 = k := by simpa using List.find?_some he
    exact hk ▸ List.mem_of_find?_eq_some he
  · intro h
    cases hfind : m.entries.find? fun e => e.1 = k with
    | none =>
        have := List.find?_eq_none.mp hfind (k, v) h
        simp at this
    | some e =>
        have hk : e.1 = k := by simpa using List.find?_some hfind
        have hmem : (k, e.2) ∈ m.entries := hk ▸ List.mem_of_find?_eq_some hfind
        rw [get?, hfind, Option.map_some, value_unique hmem h]

/-! ## Erasing -/

def erase (m : OrderedMap κ ν) (k : κ) : OrderedMap κ ν where
  entries := m.entries.filter fun e => e.1 ≠ k
  nodup := (List.filter_sublist.map Prod.fst).nodup m.nodup

@[simp] theorem entries_erase (m : OrderedMap κ ν) (k : κ) :
    (m.erase k).entries = m.entries.filter fun e => e.1 ≠ k := rfl

theorem mem_erase {m : OrderedMap κ ν} {k : κ} {e : κ × ν} :
    e ∈ (m.erase k).entries ↔ e ∈ m.entries ∧ e.1 ≠ k := by
  simp

/-! ## Setting -/

def setEntries (es : List (κ × ν)) (k : κ) (v : ν) : List (κ × ν) :=
  if k ∈ es.map Prod.fst then es.map fun e => if e.1 = k then (k, v) else e
  else es ++ [(k, v)]

theorem map_fst_setEntries (es : List (κ × ν)) (k : κ) (v : ν) :
    (setEntries es k v).map Prod.fst =
      if k ∈ es.map Prod.fst then es.map Prod.fst else es.map Prod.fst ++ [k] := by
  unfold setEntries
  split
  · rw [List.map_map]
    apply List.map_congr_left
    intro e _
    by_cases h : e.1 = k <;> simp [h]
  · simp

def set (m : OrderedMap κ ν) (k : κ) (v : ν) : OrderedMap κ ν where
  entries := setEntries m.entries k v
  nodup := by
    rw [map_fst_setEntries]
    split
    · exact m.nodup
    · rename_i h
      exact List.nodup_append.mpr ⟨m.nodup, by simp, by
        intro a ha b hb
        obtain rfl : b = k := by simpa using hb
        exact fun hab => h (hab ▸ ha)⟩

theorem entries_set_of_mem {m : OrderedMap κ ν} {k : κ} (v : ν) (h : k ∈ m.keys) :
    (m.set k v).entries = m.entries.map fun e => if e.1 = k then (k, v) else e :=
  if_pos h

theorem entries_set_of_not_mem {m : OrderedMap κ ν} {k : κ} (v : ν) (h : k ∉ m.keys) :
    (m.set k v).entries = m.entries ++ [(k, v)] :=
  if_neg h

/-! ## Operations on a present key -/

section Split

variable {m : OrderedMap κ ν} {k : κ} {v : ν} {pre post : List (κ × ν)}

theorem get?_of_split (h : m.entries = pre ++ (k, v) :: post) : m.get? k = some v :=
  get?_eq_some_iff.mpr (by simp [h])

theorem entries_set_of_split (h : m.entries = pre ++ (k, v) :: post) (w : ν) :
    (m.set k w).entries = pre ++ (k, w) :: post := by
  obtain ⟨hpre, hpost⟩ := ne_of_mem_split h
  have keep (es : List (κ × ν)) (hes : ∀ e ∈ es, e.1 ≠ k) :
      es.map (fun e => if e.1 = k then (k, w) else e) = es := by
    calc es.map (fun e => if e.1 = k then (k, w) else e)
        = es.map id := List.map_congr_left fun e he => if_neg (hes e he)
      _ = es := List.map_id es
  rw [entries_set_of_mem w (mem_keys_of_split h), h, List.map_append, List.map_cons,
    keep pre hpre, keep post hpost, if_pos rfl]

theorem entries_erase_of_split (h : m.entries = pre ++ (k, v) :: post) :
    (m.erase k).entries = pre ++ post := by
  obtain ⟨hpre, hpost⟩ := ne_of_mem_split h
  have keep (es : List (κ × ν)) (hes : ∀ e ∈ es, e.1 ≠ k) :
      es.filter (fun e => e.1 ≠ k) = es := by
    rw [List.filter_eq_self]
    intro e he
    simpa using hes e he
  rw [entries_erase, h, List.filter_append, keep pre hpre, List.filter_cons_of_neg (by simp),
    keep post hpost]

end Split

theorem get?_eq_none {m : OrderedMap κ ν} {k : κ} (h : k ∉ m.keys) : m.get? k = none := by
  cases hget : m.get? k with
  | none => rfl
  | some v => exact absurd (mem_keys.mpr ⟨v, get?_eq_some_iff.mp hget⟩) h

theorem erase_of_not_mem {m : OrderedMap κ ν} {k : κ} (h : k ∉ m.keys) : m.erase k = m := by
  apply ext
  rw [entries_erase, List.filter_eq_self]
  intro e he
  have hne : e.1 ≠ k := fun hek => h (hek ▸ List.mem_map_of_mem he)
  simpa using hne

/-! ## Bounded capacity -/

/-- Set a present key, or a new one if there is room for it. -/
def setWithin (capacity : Nat) (m : OrderedMap κ ν) (k : κ) (v : ν) : OrderedMap κ ν × Bool :=
  if k ∈ m.keys ∨ m.size < capacity then (m.set k v, true) else (m, false)

theorem setWithin_of_mem {m : OrderedMap κ ν} {k : κ} (capacity : Nat) (v : ν)
    (h : k ∈ m.keys) : m.setWithin capacity k v = (m.set k v, true) :=
  if_pos (Or.inl h)

theorem setWithin_of_room {m : OrderedMap κ ν} {capacity : Nat} (k : κ) (v : ν)
    (h : m.size < capacity) : m.setWithin capacity k v = (m.set k v, true) :=
  if_pos (Or.inr h)

theorem setWithin_full {m : OrderedMap κ ν} {capacity : Nat} {k : κ} (v : ν)
    (hk : k ∉ m.keys) (h : capacity ≤ m.size) : m.setWithin capacity k v = (m, false) :=
  if_neg fun hor => hor.elim hk (Nat.not_lt.mpr h)

end OrderedMap

end GbPlay.Library
