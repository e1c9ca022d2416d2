import Mathlib.Data.Option.Basic
import Mathlib.Tactic.Common

/-!
# A mutex and the data it guards

Tasks share data that each of them changes only while it holds the mutex.  If
every step keeps to this, at most one task holds the mutex, and a task finds the
data as it has left it.
-/

namespace GbPlay.Library

structure Mutex (τ δ : Type*) where
  owner : Option τ
  data : δ

namespace Mutex

variable {τ δ : Type*} {m m' : Mutex τ δ} {t t' : τ} {holds holds' : τ → Bool}

/-- What one step of a task may do, where the task's code has it before and after
the step either inside its critical section or outside. -/
inductive Use (t : τ) (m : Mutex τ δ) : Bool → Mutex τ δ → Bool → Prop
  | take (hfree : m.owner = none) : Use t m false { m with owner := some t } true
  | write (data : δ) : Use t m true { m with data } true
  | give : Use t m true { m with owner := none } false
  | rest (held : Bool) : Use t m held m held

/-- Every task inside its critical section owns the mutex. -/
def Held (m : Mutex τ δ) (holds : τ → Bool) : Prop :=
  ∀ t, holds t = true → m.owner = some t

theorem Held.exclusive (h : Held m holds) (ht : holds t = true) (ht' : holds t' = true) :
    t = t' :=
  Option.some.inj ((h t ht).symm.trans (h t' ht'))

theorem Held.not_held (h : Held m holds) (ht : holds t = true) (hne : t' ≠ t) :
    holds t' = false := by
  rw [← Bool.not_eq_true]
  intro ht'
  exact hne (h.exclusive ht' ht)

/-- A step of one task keeps the mutex in order. -/
theorem Held.use (h : Held m holds) (huse : Use t m (holds t) m' (holds' t))
    (hothers : ∀ t', t' ≠ t → holds' t' = holds t') : Held m' holds' := by
  intro u hu
  by_cases hut : u = t
  · subst hut
    generalize hbefore : holds u = before at huse
    generalize hafter : holds' u = after at huse hu
    cases huse with
    | take hfree => rfl
    | write data => exact h u hbefore
    | give => cases hu
    | rest held => exact h u (hbefore.trans hu)
  · rw [hothers u hut] at hu
    have howner := h u hu
    generalize hbefore : holds t = before at huse
    generalize holds' t = after at huse
    cases huse with
    | take hfree =>
        rw [hfree] at howner
        cases howner
    | write data => exact howner
    | give => exact absurd (h.exclusive hu hbefore) hut
    | rest held => exact howner

/-- The owner of the mutex is inside its critical section. -/
def Owned (m : Mutex τ δ) (holds : τ → Bool) : Prop :=
  ∀ t, m.owner = some t → holds t = true

theorem Owned.use (h : Owned m holds) (huse : Use t m (holds t) m' (holds' t))
    (hothers : ∀ t', t' ≠ t → holds' t' = holds t') : Owned m' holds' := by
  intro u hu
  generalize hbefore : holds t = before at huse
  generalize hafter : holds' t = after at huse
  cases huse with
  | take hfree =>
      obtain rfl : t = u := Option.some.inj hu
      exact hafter
  | write data =>
      by_cases hut : u = t
      · exact hut ▸ hafter
      · exact (hothers u hut).trans (h u hu)
  | give => cases hu
  | rest held =>
      by_cases hut : u = t
      · subst hut
        exact hafter.trans (hbefore.symm.trans (h u hu))
      · exact (hothers u hut).trans (h u hu)

/-- What a task guards is not changed by the steps of another. -/
theorem Held.data_eq (h : Held m holds) (huse : Use t m (holds t) m' (holds' t))
    (hne : t' ≠ t) (ht' : holds t' = true) : m'.data = m.data := by
  have hout := h.not_held ht' hne.symm
  rw [hout] at huse
  generalize holds' t = after at huse
  cases huse with
  | take hfree => rfl
  | rest => rfl

end Mutex

end GbPlay.Library
