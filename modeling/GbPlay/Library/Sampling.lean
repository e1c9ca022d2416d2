import Mathlib.Tactic.TypeStar

/-!
# Sampling from a stream of draws

A sampler returns a result and the draws that it leaves.  How many draws it uses
may depend on the draws.
-/

namespace GbPlay.Library.Sampling

variable {δ α β : Type*}

/-- The sampler uses the first `n` draws and leaves the others: neither its result nor
their number depends on what follows them. -/
def Consumes (f : (Nat → δ) → α × (Nat → δ)) (ds : Nat → δ) (n : Nat) : Prop :=
  ∀ ds' : Nat → δ, (∀ i < n, ds' i = ds i) → f ds' = ((f ds).1, fun i => ds' (n + i))

theorem Consumes.rest {f : (Nat → δ) → α × (Nat → δ)} {ds : Nat → δ} {n : Nat}
    (h : Consumes f ds n) : (f ds).2 = fun i => ds (n + i) :=
  congrArg Prod.snd (h ds fun _ _ => rfl)

theorem consumes_zero {f : (Nat → δ) → α × (Nat → δ)} {a : α} (hf : ∀ ds, f ds = (a, ds))
    (ds : Nat → δ) : Consumes f ds 0 := by
  intro ds' _
  simp only [hf, Nat.zero_add]

/-- A sampler that looks at `k` draws and samples the rest of its result from the others. -/
theorem Consumes.after {f : (Nat → δ) → β × (Nat → δ)} {g : (Nat → δ) → α × (Nat → δ)}
    {h : α → β} {ds : Nat → δ} {k n : Nat} (hg : Consumes g (fun i => ds (k + i)) n)
    (hf : ∀ ds' : Nat → δ, (∀ i < k, ds' i = ds i) →
      f ds' = (h (g fun i => ds' (k + i)).1, (g fun i => ds' (k + i)).2)) :
    Consumes f ds (k + n) := by
  intro ds' hagree
  have hfirst : ∀ i < k, ds' i = ds i := fun i hi => hagree i (by omega)
  have hothers : ∀ i < n, ds' (k + i) = ds (k + i) := fun i hi => hagree (k + i) (by omega)
  rw [hf ds' hfirst, hf ds fun _ _ => rfl, hg _ hothers]
  simp only [Nat.add_assoc]

end GbPlay.Library.Sampling
