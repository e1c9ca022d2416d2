import Mathlib.Data.List.Basic
import Mathlib.Tactic.Common

/-!
# Dialogues

A deterministic program that alternates outputs with replies: in state `q` it
outputs `next q`, or has finished, and the reply `b` takes it to `reply q b`.
`Transcript d q xs r` says that exchanging the outputs and replies `xs`, in
order, takes `q` to `r`.
-/

namespace GbPlay.Library

structure Dialogue (Q α β : Type*) where
  next : Q → Option α
  reply : Q → β → Q

namespace Dialogue

variable {Q α β : Type*} {d : Dialogue Q α β} {q r t : Q} {a : α} {b : β} {xs ys : List (α × β)}

inductive Transcript (d : Dialogue Q α β) : Q → List (α × β) → Q → Prop
  | nil {q : Q} : Transcript d q [] q
  | cons {q r : Q} {a : α} {b : β} {xs : List (α × β)} : d.next q = some a →
      Transcript d (d.reply q b) xs r → Transcript d q ((a, b) :: xs) r

namespace Transcript

theorem append (h : Transcript d q xs r) (h' : Transcript d r ys t) :
    Transcript d q (xs ++ ys) t := by
  induction h with
  | nil => exact h'
  | cons hnext _ ih => exact .cons hnext (ih h')

theorem snoc (h : Transcript d q xs r) (hnext : d.next r = some a) :
    Transcript d q (xs ++ [(a, b)]) (d.reply r b) :=
  h.append (.cons hnext .nil)

theorem nil_iff : Transcript d q [] r ↔ r = q := by
  constructor
  · rintro ⟨⟩
    rfl
  · rintro rfl
    exact .nil

theorem cons_iff : Transcript d q ((a, b) :: xs) r ↔
    d.next q = some a ∧ Transcript d (d.reply q b) xs r := by
  constructor
  · rintro ⟨⟩
    exact ⟨‹_›, ‹_›⟩
  · rintro ⟨hnext, h⟩
    exact .cons hnext h

/-- What every exchange keeps, of what has been exchanged and the state it leads to. -/
theorem invariant {I : List (α × β) → Q → Prop} {p : List (α × β)}
    (hstep : ∀ p q a b, I p q → d.next q = some a → I (p ++ [(a, b)]) (d.reply q b))
    (h : Transcript d q xs r) (hinit : I p q) : I (p ++ xs) r := by
  induction h generalizing p with
  | nil => rwa [List.append_nil]
  | @cons q r a b xs hnext _ ih =>
      rw [List.append_cons]
      exact ih (hstep p q a b hinit hnext)

/-- A finished dialogue exchanges nothing. -/
theorem eq_nil_of_finished (h : Transcript d q xs r) (hq : d.next q = none) : xs = [] := by
  cases h with
  | nil => rfl
  | cons hnext _ => simp [hq] at hnext

end Transcript

end Dialogue

end GbPlay.Library
