import GbPlay.Library.CString
import Mathlib.Data.List.Basic

/-!
# `strtol` in base 10

The number that `strtol` reads from the start of a string, and what becomes of
one that a `long` cannot hold.
-/

namespace GbPlay.Library.Strtol

/-- `isspace` of the C locale. -/
def isSpace (b : UInt8) : Bool := b = 0x20 || (0x09 ≤ b && b ≤ 0x0D)

def isDigit (b : UInt8) : Bool := 0x30 ≤ b && b ≤ 0x39

/-- The number that the digits at the start of the bytes make up, if there are any. -/
def readDigits (bytes : List UInt8) : Option Nat :=
  match bytes.takeWhile isDigit with
  | [] => none
  | digits => some (digits.foldl (fun n b => 10 * n + (b.toNat - 0x30)) 0)

/-- Blanks, a sign or none, and digits. -/
def readNumber (s : CString) : Option Int :=
  match s.bytes.dropWhile isSpace with
  | 0x2D :: rest => (readDigits rest).map fun n => -(n : Int)
  | 0x2B :: rest => (readDigits rest).map fun n => (n : Int)
  | rest => (readDigits rest).map fun n => (n : Int)

section

variable {E : Type*} (longMin longMax : Int) (erange : E)

/-- `strtol(s, NULL, 10)` with the value of `errno` before and after it. -/
def strtol (s : CString) (errno : E) : Int × E :=
  match readNumber s with
  | none => (0, errno)
  | some n =>
      if n < longMin then (longMin, erange)
      else if longMax < n then (longMax, erange)
      else (n, errno)

variable {longMin longMax : Int} {erange errno : E} {s : CString} {n : Int}

theorem strtol_none (h : readNumber s = none) :
    strtol longMin longMax erange s errno = (0, errno) := by
  rw [strtol, h]

theorem strtol_of_inRange (h : readNumber s = some n) (hmin : longMin ≤ n) (hmax : n ≤ longMax) :
    strtol longMin longMax erange s errno = (n, errno) := by
  rw [strtol, h]
  dsimp only
  rw [if_neg (Int.not_lt.mpr hmin), if_neg (Int.not_lt.mpr hmax)]

/-- A number that is out of range is reported through `errno`. -/
theorem strtol_of_outOfRange (h : readNumber s = some n) (hout : n < longMin ∨ longMax < n) :
    (strtol longMin longMax erange s errno).2 = erange := by
  rw [strtol, h]
  dsimp only
  split
  · rfl
  · rw [if_pos (by omega)]

end

end GbPlay.Library.Strtol
