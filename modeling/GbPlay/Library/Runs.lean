import Mathlib.Data.List.Induction
import Mathlib.Tactic.Common

/-!
# Runs of labelled transition systems

A system is given by a step relation `R : σ → ℓ → σ → Prop`, usually the graph
`Fires step` of an executable partial step function.  Every nondeterministic
choice is carried by the label, so an explicit run is a list of labels and can
be replayed by `exec`.

* `Run R s ls t`: the labels `ls`, performed in order, lead from `s` to `t`;
* `Reachable R s t`: some run leads from `s` to `t`;
* `FiresWhen C step`: the steps of `step` that also meet the condition `C`.
-/

namespace GbPlay.Library.Runs

variable {σ ℓ : Type*}

/-- The graph of an executable step function. -/
def Fires (step : σ → ℓ → Option σ) (s : σ) (l : ℓ) (t : σ) : Prop :=
  step s l = some t

/-- The steps of `step` taken from a state, by a label, that meet `C`. -/
def FiresWhen (C : σ → ℓ → Prop) (step : σ → ℓ → Option σ) (s : σ) (l : ℓ) (t : σ) : Prop :=
  C s l ∧ step s l = some t

/-- Performing the labels in order leads from `s` to the last state. -/
inductive Run (R : σ → ℓ → σ → Prop) (s : σ) : List ℓ → σ → Prop
  | nil : Run R s [] s
  | snoc {ls : List ℓ} {l : ℓ} {t u : σ} : Run R s ls t → R t l u → Run R s (ls ++ [l]) u

def Reachable (R : σ → ℓ → σ → Prop) (s t : σ) : Prop := ∃ ls, Run R s ls t

/-- Replay a list of labels. -/
def exec (step : σ → ℓ → Option σ) : σ → List ℓ → Option σ
  | s, [] => some s
  | s, l :: ls => (step s l).bind fun t => exec step t ls

variable {R R' : σ → ℓ → σ → Prop} {step : σ → ℓ → Option σ} {s t u : σ} {l : ℓ}
  {ls ks : List ℓ}

namespace Run

theorem single (h : R s l t) : Run R s [l] t := by
  simpa using Run.snoc (.nil : Run R s [] s) h

theorem append (hst : Run R s ls t) (htu : Run R t ks u) : Run R s (ls ++ ks) u := by
  induction htu with
  | nil => simpa using hst
  | snoc _ hstep ih =>
      rw [← List.append_assoc]
      exact .snoc ih hstep

theorem cons (hstep : R s l t) (h : Run R t ls u) : Run R s (l :: ls) u := by
  simpa using (single hstep).append h

theorem eq_of_nil (h : Run R s [] t) : t = s := by
  generalize heq : ([] : List ℓ) = ls at h
  cases h with
  | nil => rfl
  | snoc => simp at heq

theorem snoc_iff : Run R s (ls ++ [l]) u ↔ ∃ t, Run R s ls t ∧ R t l u := by
  constructor
  · intro h
    generalize heq : ls ++ [l] = ks at h
    cases h with
    | nil => simp at heq
    | snoc hrun hstep =>
        obtain ⟨rfl, hlast⟩ := List.append_inj' heq rfl
        obtain rfl := List.singleton_inj.mp hlast
        exact ⟨_, hrun, hstep⟩
  · rintro ⟨t, hrun, hstep⟩
    exact .snoc hrun hstep

/-- A run through its labels can be cut anywhere. -/
theorem split (h : Run R s (ls ++ ks) u) : ∃ t, Run R s ls t ∧ Run R t ks u := by
  induction ks using List.reverseRecOn generalizing u with
  | nil => exact ⟨u, by simpa using h, .nil⟩
  | append_singleton ks l ih =>
      rw [← List.append_assoc, snoc_iff] at h
      obtain ⟨r, hrun, hstep⟩ := h
      obtain ⟨t, hst, htr⟩ := ih hrun
      exact ⟨t, hst, .snoc htr hstep⟩

theorem fires_unique {t' : σ} (h : Run (Fires step) s ls t) (h' : Run (Fires step) s ls t') :
    t = t' := by
  induction h generalizing t' with
  | nil => exact h'.eq_of_nil.symm
  | snoc _ hstep ih =>
      obtain ⟨r, hrun, hstep'⟩ := snoc_iff.mp h'
      obtain rfl := ih hrun
      exact Option.some.inj (hstep.symm.trans hstep')

theorem mono (hR : ∀ s l t, R s l t → R' s l t) (h : Run R s ls t) : Run R' s ls t := by
  induction h with
  | nil => exact .nil
  | snoc _ hstep ih => exact .snoc ih (hR _ _ _ hstep)

/-- A system whose steps are those of another one, seen through `f`, has its runs. -/
theorem of_map {τ : Type*} {f : σ → τ} {step' : τ → ℓ → Option τ}
    (hstep : ∀ s l, step' (f s) l = (step s l).map f) {v : τ}
    (h : Run (Fires step') (f s) ls v) : ∃ t, Run (Fires step) s ls t ∧ v = f t := by
  induction h with
  | nil => exact ⟨s, .nil, rfl⟩
  | snoc _ hfire ih =>
      obtain ⟨t, hrun, rfl⟩ := ih
      rw [Fires, hstep, Option.map_eq_some_iff] at hfire
      obtain ⟨u, hu, rfl⟩ := hfire
      exact ⟨u, .snoc hrun hu, rfl⟩

/-- What holds at the start and is kept by every step holds at the end. -/
theorem invariant {I : σ → Prop} (hinit : I s)
    (hstep : ∀ t l u, I t → R t l u → I u) (h : Run R s ls t) : I t := by
  induction h with
  | nil => exact hinit
  | snoc _ hfire ih => exact hstep _ _ _ ih hfire

/-- If every step selected by `p` lowers the potential and no step raises it,
then the selected steps of a run are bounded by the potential at its start. -/
theorem countP_add_le {p : ℓ → Bool} {φ : σ → Nat} {I : σ → Prop} (hinit : I s)
    (hstep : ∀ t l u, I t → R t l u → I u ∧ φ u + (if p l then 1 else 0) ≤ φ t)
    (h : Run R s ls t) : ls.countP p + φ t ≤ φ s := by
  have hboth : I t ∧ ls.countP p + φ t ≤ φ s := by
    induction h with
    | nil => exact ⟨hinit, by simp⟩
    | snoc _ hfire ih =>
        obtain ⟨hI, hle⟩ := ih
        obtain ⟨hI', hle'⟩ := hstep _ _ _ hI hfire
        refine ⟨hI', ?_⟩
        rw [List.countP_append, List.countP_singleton]
        omega
  exact hboth.2

end Run

namespace Reachable

theorem refl (s : σ) : Reachable R s s := ⟨[], .nil⟩

theorem invariant {I : σ → Prop} (hinit : I s)
    (hstep : ∀ t l u, I t → R t l u → I u) (h : Reachable R s t) : I t := by
  obtain ⟨ls, hrun⟩ := h
  exact hrun.invariant hinit hstep

theorem mono (hR : ∀ s l t, R s l t → R' s l t) (h : Reachable R s t) : Reachable R' s t := by
  obtain ⟨ls, hrun⟩ := h
  exact ⟨ls, hrun.mono hR⟩

theorem single (h : R s l t) : Reachable R s t := ⟨[l], .single h⟩

theorem trans (h : Reachable R s t) (h' : Reachable R t u) : Reachable R s u := by
  obtain ⟨ls, hrun⟩ := h
  obtain ⟨ks, hrun'⟩ := h'
  exact ⟨ls ++ ks, hrun.append hrun'⟩

end Reachable

/-- A system that can follow every step of another one, staying related to it, can follow its
runs. -/
theorem Run.simulated {τ κ : Type*} {Q : τ → κ → τ → Prop} {S : σ → τ → Prop} {v : τ}
    (hinit : S s v)
    (hstep : ∀ ks t l u v', Run R s ks t → R t l u → S t v' → ∃ v'', Reachable Q v' v'' ∧ S u v'')
    (h : Run R s ls t) : ∃ v', Reachable Q v v' ∧ S t v' := by
  induction h with
  | nil => exact ⟨v, .refl v, hinit⟩
  | snoc hrun hfire ih =>
      obtain ⟨v', hreached, hrelated⟩ := ih
      obtain ⟨v'', hnext, hrelated'⟩ := hstep _ _ _ _ _ hrun hfire hrelated
      exact ⟨v'', hreached.trans hnext, hrelated'⟩

/-- A run all of whose labels are in order. -/
theorem Run.firesWhen {P : ℓ → Prop} (h : Run (Fires step) s ls t) (hls : ∀ l ∈ ls, P l) :
    Run (FiresWhen (fun _ l => P l) step) s ls t := by
  induction h with
  | nil => exact .nil
  | snoc _ hfire ih =>
      rw [List.forall_mem_append] at hls
      exact .snoc (ih hls.1) ⟨hls.2 _ List.mem_cons_self, hfire⟩

/-- If what is observed of a step is observed of the steps that follow it, then what is observed
of a run is observed of the run that follows it. -/
theorem Run.simulated_observed {τ κ ω : Type*} {Q : τ → κ → τ → Prop} {S : σ → τ → Prop} {v : τ}
    {observed : ℓ → Option ω} {observed' : κ → Option ω} (hinit : S s v)
    (hstep : ∀ t l u v', R t l u → S t v' → ∃ ks v'', Run Q v' ks v'' ∧
      ks.filterMap observed' = (observed l).toList ∧ S u v'')
    (h : Run R s ls t) : ∃ ks v', Run Q v ks v' ∧
      ks.filterMap observed' = ls.filterMap observed ∧ S t v' := by
  induction h with
  | nil => exact ⟨[], v, .nil, rfl, hinit⟩
  | @snoc ls l t u _ hfire ih =>
      obtain ⟨ks, v', hrun, hobserved, hrelated⟩ := ih
      obtain ⟨ks', v'', hnext, hobserved', hrelated'⟩ := hstep t l u v' hfire hrelated
      refine ⟨ks ++ ks', v'', hrun.append hnext, ?_, hrelated'⟩
      rw [List.filterMap_append, List.filterMap_append, hobserved, hobserved']
      cases hl : observed l <;> simp [hl]

theorem run_of_exec (h : exec step s ls = some t) : Run (Fires step) s ls t := by
  induction ls generalizing s with
  | nil =>
      obtain rfl : s = t := by simpa [exec] using h
      exact .nil
  | cons l ls ih =>
      rw [exec, Option.bind_eq_some_iff] at h
      obtain ⟨r, hfire, hrest⟩ := h
      exact .cons hfire (ih hrest)

theorem reachable_of_exec (h : exec step s ls = some t) : Reachable (Fires step) s t :=
  ⟨ls, run_of_exec h⟩

/-- A replayed run that ends in a state with a decidable property. -/
theorem exists_run_of_exec {p : σ → Bool} (h : (exec step s ls).any p = true) :
    ∃ t, Run (Fires step) s ls t ∧ p t = true := by
  cases hexec : exec step s ls with
  | none => simp [hexec] at h
  | some t => exact ⟨t, run_of_exec hexec, by simpa [hexec] using h⟩

theorem exists_reachable_of_exec {p : σ → Bool} (h : (exec step s ls).any p = true) :
    ∃ t, Reachable (Fires step) s t ∧ p t = true := by
  obtain ⟨t, hrun, hp⟩ := exists_run_of_exec h
  exact ⟨t, ⟨ls, hrun⟩, hp⟩

/-- The states of a run have a property if and only if its steps meet a condition,
where `I` holds along the runs whose steps do. -/
theorem Run.forall_prefix_iff {C : σ → ℓ → Prop} {I P : σ → Prop} (hinit : I s)
    (hkeep : ∀ t l u, I t → C t l → step t l = some u → I u) (hproperty : ∀ t, I t → P t)
    (hmeets : ∀ t l u, I t → step t l = some u → P u → C t l) (h : Run (Fires step) s ls t) :
    (∀ ls' s', ls' <+: ls → Run (Fires step) s ls' s' → P s') ↔
      Run (FiresWhen C step) s ls t := by
  have hinv {ls' : List ℓ} {s' : σ} (hrun : Run (FiresWhen C step) s ls' s') : I s' :=
    hrun.invariant hinit fun t l u hI hfire => hkeep t l u hI hfire.1 hfire.2
  constructor
  · intro hall
    induction h with
    | nil => exact .nil
    | snoc hrun hstep ih =>
        have hlast := hall _ _ List.prefix_rfl (.snoc hrun hstep)
        have hbefore := ih fun ls' s' hbegin =>
          hall ls' s' (hbegin.trans (List.prefix_append _ _))
        exact .snoc hbefore ⟨hmeets _ _ _ (hinv hbefore) hstep hlast, hstep⟩
  · rintro hmeets ls' s' ⟨rest, rfl⟩ hrun
    obtain ⟨r, hbegin, _⟩ := hmeets.split
    have hfires : Run (Fires step) s ls' r := hbegin.mono fun _ _ _ hfire => hfire.2
    obtain rfl := hrun.fires_unique hfires
    exact hproperty _ (hinv hbegin)

/-! ## Guarded steps -/

/-- The steps that meet the condition, as a step function. -/
def guarded (C : σ → ℓ → Prop) [∀ s l, Decidable (C s l)] (step : σ → ℓ → Option σ) (s : σ)
    (l : ℓ) : Option σ :=
  if C s l then step s l else none

theorem guarded_fires {C : σ → ℓ → Prop} [∀ s l, Decidable (C s l)]
    (h : Fires (guarded C step) s l t) : FiresWhen C step s l t := by
  unfold Fires guarded at h
  split at h
  · rename_i hC
    exact ⟨hC, h⟩
  · cases h

theorem Reachable.of_guarded {C : σ → ℓ → Prop} [∀ s l, Decidable (C s l)]
    (h : Reachable (Fires (guarded C step)) s t) : Reachable (FiresWhen C step) s t :=
  h.mono fun _ _ _ => guarded_fires

end GbPlay.Library.Runs
