import Mathlib.Data.List.Basic
import Mathlib.Tactic.Common

/-!
# Sequences of operations

An object is a state together with a function that performs an operation and
returns a result.  One object refines another when a relation between their
states is kept by every operation and makes the results equal.
-/

namespace GbPlay.Library.Operations

variable {σ τ α β : Type*}

/-- The results of performing the operations in order. -/
def results (perform : σ → α → σ × β) : σ → List α → List β
  | _, [] => []
  | s, a :: as => (perform s a).2 :: results perform (perform s a).1 as

/-- The state after them. -/
def final (perform : σ → α → σ × β) : σ → List α → σ
  | s, [] => s
  | s, a :: as => final perform (perform s a).1 as

variable {perform : σ → α → σ × β} {perform' : τ → α → τ × β} {s : σ} {t : τ} {as : List α}

/-- What every allowed operation keeps holds after all of them. -/
theorem final_invariant {I : σ → Prop} {P : α → Prop}
    (hstep : ∀ s a, P a → I s → I (perform s a).1) (has : ∀ a ∈ as, P a) (h : I s) :
    I (final perform s as) := by
  induction as generalizing s with
  | nil => exact h
  | cons a as ih =>
      apply ih
      · intro b hb
        exact has b (List.mem_cons_of_mem a hb)
      · exact hstep s a (has a List.mem_cons_self) h

/-- A relation kept by every allowed operation, with equal results, relates the
objects after all of them, and all their results are equal. -/
theorem refines {R : σ → τ → Prop} {P : α → Prop}
    (hstep : ∀ s t a, P a → R s t →
      R (perform s a).1 (perform' t a).1 ∧ (perform s a).2 = (perform' t a).2)
    (has : ∀ a ∈ as, P a) (h : R s t) :
    R (final perform s as) (final perform' t as) ∧
      results perform s as = results perform' t as := by
  induction as generalizing s t with
  | nil => exact ⟨h, rfl⟩
  | cons a as ih =>
      obtain ⟨hnext, hresult⟩ := hstep s t a (has a List.mem_cons_self) h
      obtain ⟨hfinal, hresults⟩ := ih (fun b hb => has b (List.mem_cons_of_mem a hb)) hnext
      refine ⟨hfinal, ?_⟩
      rw [results, results, hresult, hresults]

/-- A property that no operation undoes, and that holds after every operation
with a result in `Q`, holds at the end if some result was in `Q`. -/
theorem final_of_result {I : σ → Prop} {Q : β → Prop}
    (hkeep : ∀ s a, I s → I (perform s a).1)
    (hset : ∀ s a, Q (perform s a).2 → I (perform s a).1)
    (h : ∃ b ∈ results perform s as, Q b) : I (final perform s as) := by
  induction as generalizing s with
  | nil =>
      obtain ⟨b, hb, _⟩ := h
      cases hb
  | cons a as ih =>
      obtain ⟨b, hb, hQ⟩ := h
      cases List.mem_cons.mp hb with
      | inl hhead =>
          have hnow : I (perform s a).1 := hset s a (hhead ▸ hQ)
          show I (final perform (perform s a).1 as)
          exact final_invariant (P := fun _ => True) (fun s a _ => hkeep s a)
            (fun _ _ => trivial) hnow
      | inr htail => exact ih ⟨b, htail, hQ⟩

end GbPlay.Library.Operations
