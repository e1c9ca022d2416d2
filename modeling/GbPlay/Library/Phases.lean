import Mathlib.Data.List.Basic
import Mathlib.Tactic.Common

/-!
# Scripts in phases

A script is called with one input after the other and outputs one element a call.
In each of its phases it polls until it is called with the input that the phase
awaits; from that call on it outputs the data of the phase, whatever the inputs
are.  The script is over when its last phase is.
-/

namespace GbPlay.Library.Phases

structure Phase (α β : Type*) where
  awaited : α
  poll : β
  data : List β
  data_ne_nil : data ≠ []

/-- The data that is still to be output, and the phases to come. -/
structure Script (α β : Type*) where
  left : List β
  phases : List (Phase α β)

variable {α β : Type*} [DecidableEq α]

/-- One call; `none` when the script is over. -/
def step : Script α β → α → Option (β × Script α β)
  | ⟨b :: left, phases⟩, _ => some (b, ⟨left, phases⟩)
  | ⟨[], ph :: phases⟩, a =>
      if a = ph.awaited then some (ph.data.head ph.data_ne_nil, ⟨ph.data.tail, phases⟩)
      else some (ph.poll, ⟨[], ph :: phases⟩)
  | ⟨[], []⟩, _ => none

theorem step_awaited {ph : Phase α β} {b : β} {left : List β} (phases : List (Phase α β))
    (hdata : ph.data = b :: left) :
    step ⟨[], ph :: phases⟩ ph.awaited = some (b, ⟨left, phases⟩) := by
  obtain ⟨awaited, poll, data, hne⟩ := ph
  cases hdata
  simp [step]

/-- The calls with the given inputs, and whether the script was over at one of them. -/
def exchanges (s : Script α β) : List α → List (α × β) × Bool
  | [] => ([], false)
  | a :: inputs =>
      match step s a with
      | none => ([], true)
      | some (b, s') => ((a, b) :: (exchanges s' inputs).1, (exchanges s' inputs).2)

/-! ## What is output -/

variable {s : Script α β} {ph : Phase α β} {phases : List (Phase α β)} {left : List β}
  {inputs : List α}

theorem exchanges_left (left : List β) (phases : List (Phase α β)) (inputs : List α) :
    exchanges ⟨left, phases⟩ inputs =
      (inputs.zip left ++ (exchanges ⟨[], phases⟩ (inputs.drop left.length)).1,
        (exchanges ⟨[], phases⟩ (inputs.drop left.length)).2) := by
  induction left generalizing inputs with
  | nil => simp
  | cons b left ih =>
      cases inputs with
      | nil => simp [exchanges]
      | cons a inputs => simp [exchanges, step, ih]

/-- The inputs of a phase before the awaited one are answered by its poll. -/
theorem exchanges_phase (ph : Phase α β) (phases : List (Phase α β)) (inputs : List α) :
    exchanges ⟨[], ph :: phases⟩ inputs =
      let waiting := inputs.takeWhile (· ≠ ph.awaited)
      let answered := inputs.dropWhile (· ≠ ph.awaited)
      let rest := exchanges ⟨[], phases⟩ (answered.drop ph.data.length)
      (waiting.map (·, ph.poll) ++ answered.zip ph.data ++ rest.1, rest.2) := by
  induction inputs with
  | nil => simp [exchanges]
  | cons a inputs ih =>
      by_cases ha : a = ph.awaited
      · obtain ⟨awaited, poll, data, hne⟩ := ph
        obtain ⟨b, left, rfl⟩ := List.exists_cons_of_ne_nil hne
        subst ha
        rw [exchanges, step, if_pos rfl]
        simp only [List.head_cons, List.tail_cons]
        rw [exchanges_left]
        simp
      · simp [exchanges, step, ha, ih]

theorem exchanges_over (inputs : List α) :
    exchanges (β := β) ⟨[], []⟩ inputs = ([], decide (inputs ≠ [])) := by
  cases inputs <;> simp [exchanges, step]

/-- The calls are made with the inputs in order; if some are left, the script is over. -/
theorem inputs_eq (s : Script α β) (inputs : List α) :
    ∃ left, inputs = (exchanges s inputs).1.map Prod.fst ++ left ∧
      ((exchanges s inputs).2 = true ↔ left ≠ []) := by
  induction inputs generalizing s with
  | nil => exact ⟨[], by simp [exchanges]⟩
  | cons a inputs ih =>
      cases hstep : step s a with
      | none => exact ⟨a :: inputs, by simp [exchanges, hstep]⟩
      | some x =>
          obtain ⟨left, hinputs, hover⟩ := ih x.2
          refine ⟨left, ?_, by simp only [exchanges, hstep, hover]⟩
          simp only [exchanges, hstep, List.map_cons, List.cons_append, ← hinputs]

theorem inputs_exchanges (s : Script α β) (inputs : List α) :
    (exchanges s inputs).1.map Prod.fst <+: inputs := by
  obtain ⟨left, hinputs, _⟩ := inputs_eq s inputs
  exact ⟨left, hinputs.symm⟩

theorem over_iff (s : Script α β) (inputs : List α) :
    (exchanges s inputs).2 = true ↔ (exchanges s inputs).1.length < inputs.length := by
  obtain ⟨left, hinputs, hover⟩ := inputs_eq s inputs
  have hlength := congrArg List.length hinputs
  rw [List.length_append, List.length_map] at hlength
  rw [hover, ← List.length_pos_iff]
  omega

end GbPlay.Library.Phases
