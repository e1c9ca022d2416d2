import Mathlib.Data.Finset.Card
import Mathlib.Data.Fintype.Card
import Mathlib.Data.List.FinRange
import Mathlib.Logic.Function.Basic

/-!
# Ring buffers that are searched by key

`n` slots, each with a key; a key that no slot has goes into the slot whose turn
it is.  Slots that were never used have a blank key, which may itself be looked
up, and is then found in them.

As long as at most `n` keys have been asked for, the blank one among them, no
slot in use is ever taken from its key (`Filled`).
-/

namespace GbPlay.Library

@[ext]
structure RingBuffer (n : Nat) (K : Type*) where
  keys : Fin n → K
  next : Fin n

namespace RingBuffer

variable {n : Nat} {K : Type*} {r : RingBuffer n K} {x blank : K} {asked : Finset K} {k : Nat}

def insert (r : RingBuffer n K) (x : K) : RingBuffer n K where
  keys := Function.update r.keys r.next x
  next := ⟨(r.next + 1) % n, Nat.mod_lt _ r.next.pos⟩

/-- No key but the blank one has two slots. -/
def Distinct (blank : K) (r : RingBuffer n K) : Prop :=
  ∀ i j, r.keys i = r.keys j → r.keys i ≠ blank → i = j

theorem Distinct.insert (h : r.Distinct blank) (hx : ∀ i, r.keys i ≠ x) :
    (r.insert x).Distinct blank := by
  intro i j heq hne
  by_cases hi : i = r.next
  · by_cases hj : j = r.next
    · rw [hi, hj]
    · simp only [RingBuffer.insert, hi, Function.update_self, Function.update_of_ne hj] at heq
      exact absurd heq.symm (hx j)
  · by_cases hj : j = r.next
    · simp only [RingBuffer.insert, hj, Function.update_self, Function.update_of_ne hi] at heq
      exact absurd heq (hx i)
    · simp only [RingBuffer.insert, Function.update_of_ne hi, Function.update_of_ne hj] at heq hne
      exact h i j heq hne

theorem distinct_const (blank : K) (next : Fin n) :
    Distinct blank ⟨fun _ => blank, next⟩ :=
  fun _ _ _ hne => absurd rfl hne

/-- The first `k` slots are in use, and they hold the keys in `asked`. -/
structure Filled (blank : K) (asked : Finset K) (r : RingBuffer n K) (k : Nat) : Prop where
  used : ∀ i, r.keys i ≠ blank ↔ i.val < k
  next : r.next.val = k % n
  distinct : r.Distinct blank
  mem_asked : ∀ i, r.keys i ≠ blank → r.keys i ∈ asked
  kept : ∀ x ∈ asked, x ≠ blank → ∃ i, r.keys i = x

theorem filled_const (blank : K) {next : Fin n} (hnext : next.val = 0) :
    Filled blank ∅ ⟨fun _ => blank, next⟩ 0 where
  used := by simp
  next := by simp [hnext]
  distinct := distinct_const blank next
  mem_asked := fun _ hne => absurd rfl hne
  kept := by simp

/-! ## Asking for a key -/

variable [DecidableEq K]

def find (r : RingBuffer n K) (x : K) : Option (Fin n) :=
  (List.finRange n).find? fun i => r.keys i = x

/-- The slot of a key, which is given one if it has none. -/
def ensure (r : RingBuffer n K) (x : K) : RingBuffer n K × Fin n :=
  match r.find x with
  | some i => (r, i)
  | none => (r.insert x, r.next)

theorem keys_of_find {i : Fin n} (h : r.find x = some i) : r.keys i = x := by
  simpa using List.find?_some h

theorem keys_ne_of_find (h : r.find x = none) (i : Fin n) : r.keys i ≠ x := by
  simpa using List.find?_eq_none.mp h i (List.mem_finRange i)

theorem Distinct.ensure (h : r.Distinct blank) (x : K) : (r.ensure x).1.Distinct blank := by
  unfold RingBuffer.ensure
  cases hfind : r.find x with
  | some i => exact h
  | none => exact h.insert (keys_ne_of_find hfind)

/-! ## While the keys fit -/

/-- A key that has no slot finds one that is not in use. -/
theorem Filled.lt_of_card_le (h : Filled blank asked r k) (hx : ∀ i, r.keys i ≠ x)
    (hcard : (Insert.insert x asked).card ≤ n) : k < n := by
  by_contra hle
  -- all slots are in use, and their keys and `x` are too many
  have hused (i : Fin n) : r.keys i ≠ blank := (h.used i).mpr (by omega)
  have hinjective : Function.Injective r.keys := fun i j heq => h.distinct i j heq (hused i)
  have hnot : x ∉ Finset.univ.image r.keys := by simpa using hx
  have hsubset : Insert.insert x (Finset.univ.image r.keys) ⊆ Insert.insert x asked := by
    apply Finset.insert_subset_insert
    intro y hy
    obtain ⟨i, _, rfl⟩ := Finset.mem_image.mp hy
    exact h.mem_asked i (hused i)
  have hlt : n + 1 ≤ (Insert.insert x asked).card := by
    calc n + 1
        = (Insert.insert x (Finset.univ.image r.keys)).card := by
          rw [Finset.card_insert_of_notMem hnot, Finset.card_image_of_injective _ hinjective,
            Finset.card_univ, Fintype.card_fin]
      _ ≤ (Insert.insert x asked).card := Finset.card_le_card hsubset
  omega

theorem Filled.insert (h : Filled blank asked r k) (hx : ∀ i, r.keys i ≠ x) (hne : x ≠ blank)
    (hlt : k < n) : Filled blank (Insert.insert x asked) (r.insert x) (k + 1) := by
  have hnext : r.next.val = k := by rw [h.next, Nat.mod_eq_of_lt hlt]
  have hother {i : Fin n} (hi : i ≠ r.next) : (r.insert x).keys i = r.keys i :=
    Function.update_of_ne hi ..
  have hself : (r.insert x).keys r.next = x := Function.update_self ..
  constructor
  case used =>
      intro i
      by_cases hi : i = r.next
      · rw [hi, hself]
        exact iff_of_true hne (by omega)
      · have hval : i.val ≠ k := fun heq => hi (Fin.ext (heq.trans hnext.symm))
        rw [hother hi, h.used]
        omega
  case next => simp [RingBuffer.insert, hnext]
  case distinct => exact h.distinct.insert hx
  case mem_asked =>
      intro i hi
      by_cases heq : i = r.next
      · rw [heq, hself]
        exact Finset.mem_insert_self ..
      · rw [hother heq] at hi ⊢
        exact Finset.mem_insert_of_mem (h.mem_asked i hi)
  case kept =>
      intro y hy hyne
      rcases Finset.mem_insert.mp hy with rfl | hy
      · exact ⟨r.next, hself⟩
      · obtain ⟨i, rfl⟩ := h.kept y hy hyne
        have hi : i ≠ r.next := by
          rintro rfl
          have := (h.used r.next).mp hyne
          omega
        exact ⟨i, hother hi⟩

/-- One more key is asked for: the slots in use keep theirs. -/
theorem Filled.ensure (h : Filled blank asked r k) (hcard : (Insert.insert x asked).card ≤ n) :
    (∃ k', Filled blank (Insert.insert x asked) (r.ensure x).1 k') ∧
      ∀ i, r.keys i ≠ blank → (r.ensure x).1.keys i = r.keys i := by
  unfold RingBuffer.ensure
  cases hfind : r.find x with
  | some i =>
      refine ⟨⟨k, h.used, h.next, h.distinct, ?_, ?_⟩, fun _ _ => rfl⟩
      · exact fun j hj => Finset.mem_insert_of_mem (h.mem_asked j hj)
      · intro y hy hyne
        rcases Finset.mem_insert.mp hy with rfl | hy
        · exact ⟨i, keys_of_find hfind⟩
        · exact h.kept y hy hyne
  | none =>
      have hx := keys_ne_of_find hfind
      have hlt := h.lt_of_card_le hx hcard
      -- a slot that is not in use has the blank key, so the new one is another
      have hne : x ≠ blank := by
        intro heq
        have hused : r.keys ⟨k, hlt⟩ ≠ blank := heq ▸ hx _
        exact absurd ((h.used _).mp hused) (Nat.lt_irrefl k)
      refine ⟨⟨k + 1, h.insert hx hne hlt⟩, fun i hi => ?_⟩
      have hval : i ≠ r.next := by
        rintro rfl
        have hlow := (h.used r.next).mp hi
        rw [h.next, Nat.mod_eq_of_lt hlt] at hlow
        exact Nat.lt_irrefl k hlow
      exact Function.update_of_ne hval ..

end RingBuffer

end GbPlay.Library
