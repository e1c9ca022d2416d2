import Mathlib.Algebra.Group.Nat.Defs
import Mathlib.Data.List.Basic
import Mathlib.Tactic.Common

/-!
# Byte-addressed memory

A memory with addresses of `w` bits, and the runs of consecutive bytes that are
loaded from it and stored to it.  Addresses wrap around.
-/

namespace GbPlay.Library

abbrev Memory (w : Nat) := BitVec w → UInt8

namespace Memory

variable {w : Nat} {m : Memory w} {p a : BitVec w} {bs cs : List UInt8}

/-- The `n` bytes from `p` on. -/
def load (m : Memory w) (p : BitVec w) (n : Nat) : List UInt8 :=
  (List.range n).map fun i => m (p + BitVec.ofNat w i)

/-- The bytes written to `p` and on. -/
def store (m : Memory w) (p : BitVec w) (bs : List UInt8) : Memory w :=
  fun a => bs[(a - p).toNat]?.getD (m a)

@[simp] theorem length_load (m : Memory w) (p : BitVec w) (n : Nat) : (m.load p n).length = n := by
  simp [load]

@[simp] theorem store_nil (m : Memory w) (p : BitVec w) : m.store p [] = m := rfl

/-- Only the addresses of the run are written. -/
theorem store_of_outside (h : bs.length ≤ (a - p).toNat) : m.store p bs a = m a := by
  rw [store, List.getElem?_eq_none h, Option.getD_none]

theorem load_append (m : Memory w) (p : BitVec w) (n k : Nat) :
    m.load p (n + k) = m.load p n ++ m.load (p + BitVec.ofNat w n) k := by
  rw [load, List.range_add, List.map_append, List.map_map]
  congr 1
  apply List.map_congr_left
  intro i _
  show m (p + BitVec.ofNat w (n + i)) = m (p + BitVec.ofNat w n + BitVec.ofNat w i)
  rw [BitVec.ofNat_add, BitVec.add_assoc]

theorem take_load {n k : Nat} (h : n ≤ k) : (m.load p k).take n = m.load p n := by
  obtain ⟨d, rfl⟩ := Nat.exists_eq_add_of_le h
  rw [load_append, List.take_left' (length_load m p n)]

/-- How far an address is from one further on. -/
theorem toNat_sub_add {n : Nat} (hn : n < 2 ^ w) :
    (a - (p + BitVec.ofNat w n)).toNat =
      if n ≤ (a - p).toNat then (a - p).toNat - n else (a - p).toNat + 2 ^ w - n := by
  have hlt : (a - p).toNat < 2 ^ w := (a - p).isLt
  rw [← BitVec.sub_sub, BitVec.toNat_sub, BitVec.toNat_ofNat, Nat.mod_eq_of_lt hn]
  split
  case isTrue hle =>
      have hwrap : 2 ^ w - n + (a - p).toNat = (a - p).toNat - n + 2 ^ w := by omega
      rw [hwrap, Nat.add_mod_right, Nat.mod_eq_of_lt (by omega)]
  case isFalse hbefore =>
      rw [Nat.mod_eq_of_lt (by omega)]
      omega

/-- Storing one run right behind another is storing them as one. -/
theorem store_append (h : (bs ++ cs).length ≤ 2 ^ w) :
    (m.store p bs).store (p + BitVec.ofNat w bs.length) cs = m.store p (bs ++ cs) := by
  by_cases hempty : cs = []
  · rw [hempty, store_nil, List.append_nil]
  · have hpos : 0 < cs.length := List.length_pos_iff.mpr hempty
    rw [List.length_append] at h
    funext a
    have hdistance := toNat_sub_add (p := p) (a := a) (n := bs.length) (by omega)
    rw [store, store, store, hdistance]
    split
    case isTrue hle =>
        rw [List.getElem?_append_right hle, List.getElem?_eq_none hle, Option.getD_none]
    case isFalse hbefore =>
        have hlt : (a - p).toNat < bs.length := by omega
        rw [List.getElem?_append_left hlt, List.getElem?_eq_getElem hlt, Option.getD_some,
          List.getElem?_eq_none (by omega), Option.getD_none]

theorem load_store (h : bs.length ≤ 2 ^ w) : (m.store p bs).load p bs.length = bs := by
  apply List.ext_getElem
  · simp
  · intro i hi hi'
    have hfar : (p + BitVec.ofNat w i - p).toNat = i := by
      rw [BitVec.add_comm, BitVec.add_sub_cancel, BitVec.toNat_ofNat, Nat.mod_eq_of_lt (by omega)]
    simp only [load, List.getElem_map, List.getElem_range, store, hfar,
      List.getElem?_eq_getElem hi', Option.getD_some]

end Memory

end GbPlay.Library
