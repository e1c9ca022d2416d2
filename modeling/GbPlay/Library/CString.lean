import Mathlib.Data.List.TakeWhile
import Mathlib.Tactic.Common

/-!
# C strings in character arrays

A C string is its bytes before the terminator, none of which is zero.  An array
`char[n]` holds the string up to its first zero byte; `strcmp` on an array sees
nothing else of it.
-/

namespace GbPlay.Library

structure CString where
  bytes : List UInt8
  nonzero : ∀ b ∈ bytes, b ≠ 0
  deriving DecidableEq

namespace CString

@[ext] theorem ext {s t : CString} (h : s.bytes = t.bytes) : s = t := by
  cases s
  cases t
  congr

def empty : CString := ⟨[], by simp⟩

/-- `strlen` -/
def length (s : CString) : Nat := s.bytes.length

/-- The string cut off after `n` bytes. -/
def take (s : CString) (n : Nat) : CString :=
  ⟨s.bytes.take n, fun b hb => s.nonzero b (List.mem_of_mem_take hb)⟩

theorem take_of_length_le {s : CString} {n : Nat} (h : s.length ≤ n) : s.take n = s :=
  ext (List.take_of_length_le h)

theorem length_take_le (s : CString) (n : Nat) : (s.take n).length ≤ n := by
  rw [length, take, List.length_take]
  omega

/-- Behind a string, reading stops at the first zero. -/
theorem takeWhile_append (s : CString) (tail : List UInt8) :
    (s.bytes ++ 0 :: tail).takeWhile (· ≠ 0) = s.bytes := by
  rw [List.takeWhile_append_of_pos]
  · simp
  · intro b hb
    simpa using s.nonzero b hb

end CString

/-- An array `char[n]`. -/
structure CharArray (n : Nat) where
  bytes : List UInt8
  size : bytes.length = n
  deriving DecidableEq

namespace CharArray

variable {n : Nat}

@[ext] theorem ext {a b : CharArray n} (h : a.bytes = b.bytes) : a = b := by
  cases a
  cases b
  congr

/-- `memset(a, 0, sizeof(a))` -/
def zero (n : Nat) : CharArray n := ⟨List.replicate n 0, List.length_replicate⟩

/-- The string an array holds. -/
def str (a : CharArray n) : CString :=
  ⟨a.bytes.takeWhile (· ≠ 0), fun b hb => by simpa using List.mem_takeWhile_imp hb⟩

/-- There is a zero byte inside the array. -/
def Terminated (a : CharArray n) : Prop := 0 ∈ a.bytes

/-- `strncpy(dst, src, sizeof(dst))`, which pads the array with zeros. -/
def strncpy (n : Nat) (src : CString) : CharArray n :=
  ⟨src.bytes.take n ++ List.replicate (n - src.length) 0, by
    simp [CString.length]
    omega⟩

/-- `a[i] = b` -/
def set (a : CharArray n) (i : Nat) (b : UInt8) : CharArray n :=
  ⟨a.bytes.set i b, by rw [List.length_set, a.size]⟩

/-- `snprintf(dst, sizeof(dst), "%s", src)`, which leaves what is behind the terminator. -/
def snprintf (dst : CharArray (n + 1)) (src : CString) : CharArray (n + 1) :=
  ⟨(src.take n).bytes ++ 0 :: dst.bytes.drop ((src.take n).length + 1), by
    have hlen := src.length_take_le n
    rw [CString.length] at hlen ⊢
    rw [List.length_append, List.length_cons, List.length_drop, dst.size]
    omega⟩

/-! ## Truncating copies -/

/-- `strncpy(dst, src, sizeof(dst)); dst[sizeof(dst) - 1] = '\0';` -/
def truncatedStringCopy (n : Nat) (src : CString) : CharArray n :=
  (strncpy n src).set (n - 1) 0

theorem bytes_truncatedStringCopy (n : Nat) (s : CString) :
    (truncatedStringCopy (n + 1) s).bytes =
      (s.take n).bytes ++ List.replicate (n + 1 - (s.take n).length) 0 := by
  simp only [truncatedStringCopy, set, strncpy, CString.take, CString.length,
    Nat.add_sub_cancel, List.length_take]
  by_cases h : s.bytes.length ≤ n
  · -- the last byte is padding already
    rw [List.take_of_length_le (by omega), List.take_of_length_le h,
      List.set_append_right _ _ h, Nat.min_eq_right h]
    congr 1
    apply List.ext_getElem
    · simp
    · intro i _ _
      simp
  · -- the last byte is the string's own and gets overwritten
    have hcut : (s.bytes.take (n + 1)).length = n + 1 := by
      rw [List.length_take]
      omega
    have hpad : n + 1 - s.bytes.length = 0 := by omega
    have hmin : n + 1 - min n s.bytes.length = 1 := by omega
    rw [hpad, hmin, List.replicate_zero, List.append_nil]
    apply List.ext_getElem
    · simp
      omega
    · intro i hi _
      have hin : i < n + 1 := by simpa [hcut] using hi
      by_cases hlast : i = n
      · subst hlast
        have hmid : (s.bytes.take i).length ≤ i := s.length_take_le i
        rw [List.getElem_set_self, List.getElem_append_right hmid]
        simp
      · have hlt : i < n := by omega
        rw [List.getElem_set_ne (by omega), List.getElem_append_left (by simp; omega)]
        simp

/-- What fits into the array is copied as it is, the rest is cut off. -/
theorem str_truncatedStringCopy (n : Nat) (s : CString) :
    (truncatedStringCopy (n + 1) s).str = s.take n := by
  apply CString.ext
  show (truncatedStringCopy (n + 1) s).bytes.takeWhile (· ≠ 0) = (s.take n).bytes
  have hlen := s.length_take_le n
  obtain ⟨k, hk⟩ : ∃ k, n + 1 - (s.take n).length = k + 1 := ⟨n - (s.take n).length, by omega⟩
  rw [bytes_truncatedStringCopy, hk, List.replicate_succ, CString.takeWhile_append]

theorem str_truncatedStringCopy_of_length_le {n : Nat} {s : CString} (h : s.length ≤ n) :
    (truncatedStringCopy (n + 1) s).str = s := by
  rw [str_truncatedStringCopy, CString.take_of_length_le h]

theorem str_snprintf (dst : CharArray (n + 1)) (s : CString) :
    (dst.snprintf s).str = s.take n :=
  CString.ext (CString.takeWhile_append _ _)

/-- A cleared array that `snprintf` has written to. -/
theorem bytes_snprintf_zero (n : Nat) (s : CString) :
    ((zero (n + 1)).snprintf s).bytes =
      (s.take n).bytes ++ List.replicate (n + 1 - (s.take n).length) 0 := by
  have hlen := s.length_take_le n
  have hpad : n + 1 - (s.take n).length = (n + 1 - ((s.take n).length + 1)) + 1 := by omega
  rw [hpad, List.replicate_succ]
  simp only [snprintf, zero, List.drop_replicate]

/-- `snprintf` fills a cleared array with the whole string if there is room for its
terminator, and only then. -/
theorem bytes_snprintf_zero_eq_iff (n : Nat) (s : CString) :
    ((zero (n + 1)).snprintf s).bytes = s.bytes ++ List.replicate (n + 1 - s.length) 0 ↔
      s.length < n + 1 := by
  constructor
  · intro heq
    by_contra hlong
    have hpad : n + 1 - s.length = 0 := by omega
    rw [hpad, List.replicate_zero, List.append_nil] at heq
    have hzero : 0 ∈ ((zero (n + 1)).snprintf s).bytes := by simp [snprintf]
    exact s.nonzero 0 (heq ▸ hzero) rfl
  · intro hlt
    rw [bytes_snprintf_zero, CString.take_of_length_le (Nat.le_of_lt_succ hlt)]

theorem terminated_truncatedStringCopy (n : Nat) (s : CString) :
    (truncatedStringCopy (n + 1) s).Terminated := by
  have hlen := s.length_take_le n
  rw [Terminated, bytes_truncatedStringCopy, List.mem_append, List.mem_replicate]
  right
  exact ⟨by omega, rfl⟩

/-- A terminated array has room for the terminator behind its string. -/
theorem Terminated.length_str_lt {a : CharArray n} (h : a.Terminated) : a.str.length < n := by
  have hle : (a.bytes.takeWhile (· ≠ 0)).length ≤ a.bytes.length :=
    (List.takeWhile_prefix _).length_le
  have hne : (a.bytes.takeWhile (· ≠ 0)).length ≠ a.bytes.length := by
    intro heq
    have hall : a.bytes.takeWhile (· ≠ 0) = a.bytes :=
      (List.takeWhile_prefix _).eq_of_length heq
    simpa using List.takeWhile_eq_self_iff.mp hall 0 h
  have hsize := a.size
  show (a.bytes.takeWhile (· ≠ 0)).length < n
  omega

theorem terminated_zero (n : Nat) : (zero (n + 1)).Terminated := by
  simp [Terminated, zero]

@[simp] theorem str_zero (n : Nat) : (zero n).str = CString.empty := by
  apply CString.ext
  cases n with
  | zero => rfl
  | succ n => simp [str, zero, CString.empty, List.replicate_succ]

end CharArray

end GbPlay.Library
