import Mathlib.Algebra.BigOperators.Group.List.Basic
import Mathlib.Algebra.Group.Nat.Defs
import Mathlib.Data.List.Forall2
import Mathlib.Tactic.Ring

/-!
# Layouts of fixed width

Slices of a list at fixed offsets, and numbers packed into fields of fixed widths,
the most significant byte first.
-/

namespace GbPlay.Library.Layout

/-! ## Slices -/

section Slices

variable {α : Type*} {as bs : List α} {i n : Nat}

/-- The `n` elements from offset `i` on. -/
def slice (bs : List α) (i n : Nat) : List α := (bs.drop i).take n

theorem getElem?_append_replicate {k : Nat} (c : α) (h : i < as.length + k) :
    (as ++ List.replicate k c)[i]? = some (as[i]?.getD c) := by
  by_cases hlt : i < as.length
  · rw [List.getElem?_append_left hlt, List.getElem?_eq_getElem hlt, Option.getD_some]
  · rw [List.getElem?_append_right (by omega), List.getElem?_replicate, if_pos (by omega),
      List.getElem?_eq_none (by omega), Option.getD_none]

theorem slice_append_left (h : i + n ≤ as.length) : slice (as ++ bs) i n = slice as i n := by
  rw [slice, slice, List.drop_append_of_le_length (by omega), List.take_append_of_le_length]
  rw [List.length_drop]
  omega

theorem slice_append_right (h : as.length ≤ i) :
    slice (as ++ bs) i n = slice bs (i - as.length) n := by
  rw [slice, slice, List.drop_append, List.drop_of_length_le h, List.nil_append]

@[simp] theorem slice_self (bs : List α) : slice bs 0 bs.length = bs := by
  simp [slice]

theorem slice_one {b : α} (h : bs[i]? = some b) : slice bs i 1 = [b] := by
  obtain ⟨hlt, rfl⟩ := List.getElem?_eq_some_iff.mp h
  rw [slice, List.drop_eq_getElem_cons hlt, List.take_succ_cons, List.take_zero]

theorem slice_slice {j m : Nat} (h : j + m ≤ n) :
    slice (slice bs i n) j m = slice bs (i + j) m := by
  rw [slice, slice, slice, List.drop_take, List.drop_drop, List.take_take, Nat.min_eq_left]
  omega

/-- A segment of a concatenation is at the sum of the lengths of those before it. -/
theorem slice_segments {segments : List (List α)} {segment : List α}
    (h : segments[i]? = some segment) :
    slice segments.flatten ((segments.take i).map List.length).sum segment.length = segment := by
  induction segments generalizing i with
  | nil => simp at h
  | cons first segments ih =>
      rw [List.flatten_cons]
      cases i with
      | zero =>
          obtain rfl : first = segment := by simpa using h
          rw [List.take_zero, List.map_nil, List.sum_nil, slice_append_left (by omega), slice_self]
      | succ i =>
          rw [List.take_succ_cons, List.map_cons, List.sum_cons,
            slice_append_right (Nat.le_add_right _ _), Nat.add_sub_cancel_left]
          exact ih (by simpa using h)

theorem length_flatten_of_rows {rows : List (List α)} {w : Nat}
    (hrows : ∀ r ∈ rows, r.length = w) : rows.flatten.length = w * rows.length := by
  induction rows with
  | nil => simp
  | cons r rows ih =>
      have hr : r.length = w := hrows r List.mem_cons_self
      rw [List.flatten_cons, List.length_append, hr,
        ih fun s hs => hrows s (List.mem_cons_of_mem r hs), List.length_cons, Nat.mul_succ,
        Nat.add_comm]

/-- A slice of rows of one width. -/
theorem slice_flatten {rows : List (List α)} {row : List α} {w : Nat}
    (hrows : ∀ r ∈ rows, r.length = w) (hrow : rows[i]? = some row) :
    slice rows.flatten (w * i) w = row := by
  have hlt : i < rows.length := (List.getElem?_eq_some_iff.mp hrow).1
  have hwidth : row.length = w := hrows row (List.mem_of_getElem? hrow)
  have hsum : ((rows.take i).map List.length).sum = w * i := by
    rw [← List.length_flatten, length_flatten_of_rows fun r hr => hrows r (List.mem_of_mem_take hr),
      List.length_take, Nat.min_eq_left (by omega)]
  rw [← hsum, ← hwidth, slice_segments hrow]

end Slices

/-! ## Numbers -/

/-- The lowest `w` bytes of a number, the most significant one first. -/
def encode : Nat → Nat → List UInt8
  | 0, _ => []
  | w + 1, n => UInt8.ofNat (n / 256 ^ w) :: encode w n

def decode (bs : List UInt8) : Nat := bs.foldl (fun n b => 256 * n + b.toNat) 0

section Numbers

variable {w n : Nat}

@[simp] theorem length_encode (w n : Nat) : (encode w n).length = w := by
  induction w with
  | zero => rfl
  | succ w ih => simp [encode, ih]

theorem foldl_encode (w n k : Nat) :
    (encode w n).foldl (fun n b => 256 * n + b.toNat) k = k * 256 ^ w + n % 256 ^ w := by
  induction w generalizing k with
  | zero => simp [encode, Nat.mod_one]
  | succ w ih =>
      have hmod : n % 256 ^ (w + 1) = 256 ^ w * (n / 256 ^ w % 256) + n % 256 ^ w := by
        rw [Nat.pow_succ, Nat.mod_mul, Nat.add_comm]
      rw [encode, List.foldl_cons, ih, hmod, UInt8.toNat_ofNat']
      ring

theorem decode_encode (h : n < 256 ^ w) : decode (encode w n) = n := by
  rw [decode, foldl_encode, Nat.zero_mul, Nat.zero_add, Nat.mod_eq_of_lt h]

end Numbers

/-! ## Packing -/

/-- The value fits into a field of the width. -/
def InWidth (w : Nat) (v : Int) : Prop := 0 ≤ v ∧ v < 256 ^ w

instance (w : Nat) (v : Int) : Decidable (InWidth w v) := inferInstanceAs (Decidable (_ ∧ _))

/-- One value for each field; `none` when one does not fit. -/
def pack : List Nat → List Int → Option (List UInt8)
  | [], [] => some []
  | w :: ws, v :: vs =>
      if InWidth w v then (pack ws vs).map (encode w v.toNat ++ ·) else none
  | _, _ => none

def unpack : List Nat → List UInt8 → List Int
  | [], _ => []
  | w :: ws, bs => (decode (bs.take w) : Int) :: unpack ws (bs.drop w)

theorem forall₂_set {α β : Type*} {R : α → β → Prop} {as : List α} {bs : List β} {i : Nat} {a : α}
    {b : β} (h : List.Forall₂ R as bs) (ha : as[i]? = some a) (hb : R a b) :
    List.Forall₂ R as (bs.set i b) := by
  induction h generalizing i with
  | nil => cases ha
  | cons hr _ ih =>
      cases i with
      | zero =>
          cases ha
          exact .cons hb ‹_›
      | succ i => exact .cons hr (ih ha)

section Packing

variable {ws ws' : List Nat} {vs vs' : List Int} {bs : List UInt8}

theorem pack_of_inWidth (h : List.Forall₂ InWidth ws vs) : ∃ bs, pack ws vs = some bs := by
  induction h with
  | nil => exact ⟨[], rfl⟩
  | cons hv _ ih =>
      obtain ⟨bs, hbs⟩ := ih
      exact ⟨_, by rw [pack, if_pos hv, hbs, Option.map_some]⟩

theorem pack_cons {w : Nat} {v : Int} (h : pack (w :: ws) (v :: vs) = some bs) :
    InWidth w v ∧ ∃ rest, pack ws vs = some rest ∧ bs = encode w v.toNat ++ rest := by
  rw [pack] at h
  split at h
  · obtain ⟨rest, hrest, rfl⟩ := Option.map_eq_some_iff.mp h
    exact ⟨‹_›, rest, hrest, rfl⟩
  · cases h

theorem length_of_pack (h : pack ws vs = some bs) : bs.length = ws.sum := by
  induction ws generalizing vs bs with
  | nil =>
      cases vs <;> cases h
      rfl
  | cons w ws ih =>
      cases vs with
      | nil => cases h
      | cons v vs =>
          obtain ⟨_, rest, hrest, rfl⟩ := pack_cons h
          rw [List.length_append, length_encode, ih hrest, List.sum_cons]

/-- What has been packed is recovered. -/
theorem unpack_of_pack (h : pack ws vs = some bs) : unpack ws bs = vs := by
  induction ws generalizing vs bs with
  | nil =>
      cases vs <;> cases h
      rfl
  | cons w ws ih =>
      cases vs with
      | nil => cases h
      | cons v vs =>
          obtain ⟨⟨hpos, hlt⟩, rest, hrest, rfl⟩ := pack_cons h
          have hlt' : v.toNat < 256 ^ w := (Int.toNat_lt hpos).mpr (by exact_mod_cast hlt)
          rw [unpack, List.take_left' (length_encode w _), List.drop_left' (length_encode w _),
            ih hrest, decode_encode hlt', Int.toNat_of_nonneg hpos]

theorem pack_append (h : ws.length = vs.length) :
    pack (ws ++ ws') (vs ++ vs') =
      (pack ws vs).bind fun bs => (pack ws' vs').map (bs ++ ·) := by
  induction ws generalizing vs with
  | nil =>
      obtain rfl := List.length_eq_zero_iff.mp h.symm
      simp [pack]
  | cons w ws ih =>
      obtain ⟨v, vs, rfl⟩ := List.exists_cons_of_length_eq_add_one h.symm
      have hlength : ws.length = vs.length := Nat.succ.inj h
      rw [List.cons_append, List.cons_append, pack, pack, ih hlength]
      split
      · cases pack ws vs <;> cases pack ws' vs' <;> simp
      · rfl

end Packing

end GbPlay.Library.Layout
