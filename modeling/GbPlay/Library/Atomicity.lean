import GbPlay.Library.Runs
import Mathlib.Logic.Function.Basic

/-!
# Operations that take effect at once

Tasks perform operations on data they share.  The code of an operation is run step by step
between the taking and the giving of a mutex, and a crash may stop all tasks at any moment:
what it leaves of the data is `crash`.  If the code does what `perform` does, and changes
nothing that survives a crash before its last step, then the tasks observe what they would
if every operation took effect in one step between its call and its return.
-/

namespace GbPlay.Library.Atomicity

open GbPlay.Library.Runs

variable {τ σ α β κ υ : Type}

/-! ## The code of an operation -/

/-- Where an operation begins, and its steps, of which the last one gives the result. -/
structure Code (σ α β κ : Type) where
  begin : α → κ
  step : σ → κ → σ × (κ ⊕ β)

/-- From here on, the code leaves the data as `s'` and returns `b`. -/
inductive Finishes (c : Code σ α β κ) : σ → κ → σ → β → Prop
  | last {s s' : σ} {k : κ} {b : β} (h : c.step s k = (s', .inr b)) : Finishes c s k s' b
  | more {s s' s'' : σ} {k k' : κ} {b : β} (h : c.step s k = (s', .inl k'))
      (hrest : Finishes c s' k' s'' b) : Finishes c s k s'' b

/-- What the code does, uninterrupted, and what a crash in the middle of it leaves. -/
structure Performs (c : Code σ α β κ) (perform : σ → α → σ × β) (crash : σ → σ) : Prop where
  finishes : ∀ s a, Finishes c s (c.begin a) (perform s a).1 (perform s a).2
  survives : ∀ s k s' k', c.step s k = (s', .inl k') → crash s' = crash s

theorem Finishes.of_more {c : Code σ α β κ} {s s' s'' : σ} {k k' : κ} {b : β}
    (h : Finishes c s k s'' b) (hstep : c.step s k = (s', .inl k')) : Finishes c s' k' s'' b := by
  cases h with
  | last hlast =>
      rw [hstep] at hlast
      cases hlast
  | more hmore hrest =>
      rw [hstep] at hmore
      cases hmore
      exact hrest

theorem Finishes.of_last {c : Code σ α β κ} {s s' s'' : σ} {k : κ} {b b' : β}
    (h : Finishes c s k s'' b) (hstep : c.step s k = (s', .inr b')) : s' = s'' ∧ b' = b := by
  cases h with
  | last hlast =>
      rw [hstep] at hlast
      cases hlast
      exact ⟨rfl, rfl⟩
  | more hmore _ =>
      rw [hstep] at hmore
      cases hmore

/-! ## Tasks that use the code under a mutex -/

inductive Task (α β κ : Type)
  | idle
  /-- The task waits for the mutex. -/
  | waiting (a : α)
  | running (k : κ)
  /-- The operation is done, the mutex is still held. -/
  | leaving (b : β)
  | returning (b : β)
  deriving DecidableEq

/-- The task is between the taking and the giving of the mutex. -/
def Task.holds : Task α β κ → Bool
  | .running _ | .leaving _ => true
  | _ => false

def Task.isRunning : Task α β κ → Bool
  | .running _ => true
  | _ => false

structure State (τ σ α β κ : Type) where
  data : σ
  owner : Option τ
  task : τ → Task α β κ

inductive Label (τ α β : Type)
  | call (t : τ) (a : α)
  | take (t : τ)
  | step (t : τ)
  | give (t : τ)
  | returned (t : τ) (b : β)
  | crash

/-- What can be told from outside. -/
inductive Observation (τ α β : Type)
  | call (t : τ) (a : α)
  | returned (t : τ) (b : β)
  | crash
  deriving DecidableEq

def Label.observed : Label τ α β → Option (Observation τ α β)
  | .call t a => some (.call t a)
  | .returned t b => some (.returned t b)
  | .crash => some .crash
  | _ => none

def start (s : σ) : State τ σ α β κ := ⟨s, none, fun _ => .idle⟩

def step [DecidableEq τ] [DecidableEq β] (c : Code σ α β κ) (crash : σ → σ)
    (s : State τ σ α β κ) : Label τ α β → Option (State τ σ α β κ)
  | .call t a =>
      match s.task t with
      | .idle => some { s with task := Function.update s.task t (.waiting a) }
      | _ => none
  | .take t =>
      match s.task t, s.owner with
      | .waiting a, none =>
          some { s with owner := some t, task := Function.update s.task t (.running (c.begin a)) }
      | _, _ => none
  | .step t =>
      match s.task t with
      | .running k =>
          match c.step s.data k with
          | (data, .inl k') =>
              some { s with data, task := Function.update s.task t (.running k') }
          | (data, .inr b) =>
              some { s with data, task := Function.update s.task t (.leaving b) }
      | _ => none
  | .give t =>
      match s.task t with
      | .leaving b =>
          some { s with owner := none, task := Function.update s.task t (.returning b) }
      | _ => none
  | .returned t b =>
      match s.task t with
      | .returning b' =>
          if b = b' then some { s with task := Function.update s.task t .idle } else none
      | _ => none
  | .crash => some (start (crash s.data))

/-! ## Tasks whose operations take one step -/

namespace AtOnce

inductive Task (α β : Type)
  | idle
  | waiting (a : α)
  | performed (b : β)

structure State (τ υ α β : Type) where
  data : υ
  task : τ → Task α β

inductive Label (τ α β : Type)
  | call (t : τ) (a : α)
  | perform (t : τ)
  | returned (t : τ) (b : β)
  | crash

def Label.observed : Label τ α β → Option (Observation τ α β)
  | .call t a => some (.call t a)
  | .returned t b => some (.returned t b)
  | .crash => some .crash
  | .perform _ => none

def start (s : υ) : State τ υ α β := ⟨s, fun _ => .idle⟩

def step [DecidableEq τ] [DecidableEq β] (perform : υ → α → υ × β) (crash : υ → υ)
    (s : State τ υ α β) : Label τ α β → Option (State τ υ α β)
  | .call t a =>
      match s.task t with
      | .idle => some { s with task := Function.update s.task t (.waiting a) }
      | _ => none
  | .perform t =>
      match s.task t with
      | .waiting a =>
          let (data, b) := perform s.data a
          some ⟨data, Function.update s.task t (.performed b)⟩
      | _ => none
  | .returned t b =>
      match s.task t with
      | .performed b' =>
          if b = b' then some { s with task := Function.update s.task t .idle } else none
      | _ => none
  | .crash => some (start (crash s.data))

end AtOnce

/-! ## The steps of the code can be taken at once -/

section Following

variable [DecidableEq τ] [DecidableEq β] {c : Code σ α β κ} {perform : σ → α → σ × β}
  {crash : σ → σ} {perform' : υ → α → υ × β} {crash' : υ → υ} {R : σ → υ → Prop}
  {Allowed : α → Prop}

/-- Where a task is in both systems; `before` is the data before the operation that is running. -/
inductive Follows (c : Code σ α β κ) (perform : σ → α → σ × β) (Allowed : α → Prop)
    (before data : σ) : Task α β κ → AtOnce.Task α β → Prop
  | idle : Follows c perform Allowed before data .idle .idle
  | waiting {a : α} (ha : Allowed a) :
      Follows c perform Allowed before data (.waiting a) (.waiting a)
  | running {a : α} {k : κ} (ha : Allowed a)
      (h : Finishes c data k (perform before a).1 (perform before a).2) :
      Follows c perform Allowed before data (.running k) (.waiting a)
  | leaving (b : β) : Follows c perform Allowed before data (.leaving b) (.performed b)
  | returning (b : β) : Follows c perform Allowed before data (.returning b) (.performed b)

/-- The data are those of the operations taken at once, unless one is running. -/
structure Related (c : Code σ α β κ) (perform : σ → α → σ × β) (crash : σ → σ) (Allowed : α → Prop)
    (R : σ → υ → Prop) (before : σ) (s : State τ σ α β κ) (u : AtOnce.State τ υ α β) : Prop where
  data : R before u.data
  survives : crash s.data = crash before
  follows : ∀ t, Follows c perform Allowed before s.data (s.task t) (u.task t)
  rest : (∀ t, (s.task t).isRunning = false) → s.data = before
  holds : ∀ t, (s.task t).holds = true → s.owner = some t

omit [DecidableEq τ] [DecidableEq β] in
theorem Follows.of_not_running {before data before' data' : σ} {x : Task α β κ}
    {y : AtOnce.Task α β} (h : Follows c perform Allowed before data x y)
    (hx : x.isRunning = false) : Follows c perform Allowed before' data' x y := by
  cases h with
  | idle => exact .idle
  | waiting ha => exact .waiting ha
  | running => cases hx
  | leaving b => exact .leaving b
  | returning b => exact .returning b

omit [DecidableEq β] in
theorem follows_update {before data : σ} {task : τ → Task α β κ} {task' : τ → AtOnce.Task α β}
    {t : τ} {x : Task α β κ} {y : AtOnce.Task α β}
    (hothers : ∀ t', t' ≠ t → Follows c perform Allowed before data (task t') (task' t'))
    (ht : Follows c perform Allowed before data x y) (t' : τ) :
    Follows c perform Allowed before data (Function.update task t x t')
      (Function.update task' t y t') := by
  by_cases htt : t' = t
  · subst htt
    rw [Function.update_self, Function.update_self]
    exact ht
  · rw [Function.update_of_ne htt, Function.update_of_ne htt]
    exact hothers t' htt

omit [DecidableEq β] in
theorem follows_stays {before data : σ} {task : τ → Task α β κ} {task' : τ → AtOnce.Task α β}
    {t : τ} {x : Task α β κ}
    (hothers : ∀ t', t' ≠ t → Follows c perform Allowed before data (task t') (task' t'))
    (ht : Follows c perform Allowed before data x (task' t)) (t' : τ) :
    Follows c perform Allowed before data (Function.update task t x t') (task' t') := by
  have hupdate := follows_update hothers ht t'
  rwa [Function.update_eq_self] at hupdate

section Step

variable {s s' : State τ σ α β κ} {u : AtOnce.State τ υ α β} {before : σ} {t : τ}

omit [DecidableEq β] in
/-- A task that was not running, and has stopped. -/
theorem not_running_of_update {task : τ → Task α β κ} {x : Task α β κ}
    (ht : (task t).isRunning = false)
    (h : ∀ t', (Function.update task t x t').isRunning = false) (t' : τ) :
    (task t').isRunning = false := by
  by_cases htt : t' = t
  · rw [htt]
    exact ht
  · have hother := h t'
    rwa [Function.update_of_ne htt] at hother

omit [DecidableEq β] in
theorem Related.holds_update (h : Related c perform crash Allowed R before s u) {x : Task α β κ}
    (hx : x.holds = true → s.owner = some t) (t' : τ)
    (ht' : (Function.update s.task t x t').holds = true) : s.owner = some t' := by
  by_cases htt : t' = t
  · subst htt
    rw [Function.update_self] at ht'
    exact hx ht'
  · rw [Function.update_of_ne htt] at ht'
    exact h.holds t' ht'

omit [DecidableEq τ] [DecidableEq β] in
/-- Next to a task that holds the mutex none does. -/
theorem Related.others (h : Related c perform crash Allowed R before s u)
    (hholds : (s.task t).holds = true) (t' : τ) (ht' : t' ≠ t) :
    (s.task t').holds = false := by
  cases hother : (s.task t').holds with
  | false => rfl
  | true =>
      have howner := h.holds t' hother
      rw [h.holds t hholds] at howner
      exact absurd (Option.some.inj howner).symm ht'

omit [DecidableEq τ] [DecidableEq β] in
theorem not_running_of_not_holds {x : Task α β κ} (h : x.holds = false) : x.isRunning = false := by
  cases x <;> first | rfl | cases h

theorem Related.call (h : Related c perform crash Allowed R before s u) {a : α} (ha : Allowed a)
    (hstep : step c crash s (.call t a) = some s') :
    ∃ u', AtOnce.step perform' crash' u (.call t a) = some u' ∧
      Related c perform crash Allowed R before s' u' := by
  simp only [step] at hstep
  split at hstep <;> cases hstep
  rename_i hidle
  have hfollows := h.follows t
  rw [hidle] at hfollows
  generalize htask : u.task t = y at hfollows
  cases hfollows
  refine ⟨{ u with task := Function.update u.task t (.waiting a) }, by simp [AtOnce.step, htask],
    h.data, h.survives, ?_, fun hrest => ?_, ?_⟩
  · exact follows_update (fun t' _ => h.follows t') (.waiting ha)
  · exact h.rest (not_running_of_update (by rw [hidle]; rfl) hrest)
  · exact h.holds_update nofun

theorem Related.take (hperforms : Performs c perform crash)
    (h : Related c perform crash Allowed R before s u)
    (hstep : step c crash s (.take t) = some s') :
    Related c perform crash Allowed R before s' u := by
  simp only [step] at hstep
  split at hstep <;> cases hstep
  rename_i a hwaiting hfree
  have hnobody (t' : τ) : (s.task t').holds = false := by
    cases hholds : (s.task t').holds with
    | false => rfl
    | true =>
        have howner := h.holds t' hholds
        rw [hfree] at howner
        cases howner
  have hdata : s.data = before := h.rest fun t' => not_running_of_not_holds (hnobody t')
  have hfollows := h.follows t
  rw [hwaiting] at hfollows
  generalize htask : u.task t = y at hfollows
  cases hfollows with
  | waiting ha =>
      have hruns : Follows c perform Allowed before s.data (.running (c.begin a)) (.waiting a) := by
        rw [hdata]
        exact .running ha (hperforms.finishes before a)
      rw [← htask] at hruns
      refine ⟨h.data, h.survives, ?_, fun _ => hdata, fun t' ht' => ?_⟩
      · exact follows_stays (fun t' _ => h.follows t') hruns
      · by_cases htt : t' = t
        · rw [htt]
        · dsimp only at ht'
          rw [Function.update_of_ne htt, hnobody t'] at ht'
          cases ht'

/-- A step of the code: the operation takes effect with its last one. -/
theorem Related.step (hperforms : Performs c perform crash)
    (hop : ∀ s u a, Allowed a → R s u →
      R (perform s a).1 (perform' u a).1 ∧ (perform s a).2 = (perform' u a).2)
    (h : Related c perform crash Allowed R before s u)
    (hstep : Atomicity.step c crash s (.step t) = some s') :
    Related c perform crash Allowed R before s' u ∨
      ∃ before' u', AtOnce.step perform' crash' u (.perform t) = some u' ∧
        Related c perform crash Allowed R before' s' u' := by
  simp only [Atomicity.step] at hstep
  split at hstep
  case h_2 => cases hstep
  case h_1 k hrunning =>
      have hholds : (s.task t).holds = true := by
        rw [hrunning]
        rfl
      have hothers {before' data' : σ} (t' : τ) (ht' : t' ≠ t) :
          Follows c perform Allowed before' data' (s.task t') (u.task t') :=
        (h.follows t').of_not_running (not_running_of_not_holds (h.others hholds t' ht'))
      have hfollows := h.follows t
      rw [hrunning] at hfollows
      generalize htask : u.task t = y at hfollows
      cases hfollows with
      | @running a _ ha hfinishes =>
          split at hstep <;> cases hstep
          · rename_i data k' hmore
            left
            have hruns : Follows c perform Allowed before data (.running k') (.waiting a) :=
              .running ha (hfinishes.of_more hmore)
            rw [← htask] at hruns
            refine ⟨h.data, (hperforms.survives _ _ _ _ hmore).trans h.survives, ?_,
              fun hrest => ?_, ?_⟩
            · exact follows_stays hothers hruns
            · have hstill := hrest t
              dsimp only at hstill
              rw [Function.update_self] at hstill
              cases hstill
            · exact h.holds_update fun _ => h.holds t hholds
          · rename_i data b hlast
            right
            obtain ⟨hdata, hresult⟩ := hfinishes.of_last hlast
            obtain ⟨hrelated, hsame⟩ := hop before u.data a ha h.data
            refine ⟨(perform before a).1, ⟨(perform' u.data a).1,
              Function.update u.task t (.performed (perform' u.data a).2)⟩,
              by simp [AtOnce.step, htask], hrelated, by rw [hdata], ?_, fun _ => hdata, ?_⟩
            · rw [← hsame, ← hresult]
              exact follows_update hothers (.leaving b)
            · exact h.holds_update fun _ => h.holds t hholds

theorem Related.give (h : Related c perform crash Allowed R before s u)
    (hstep : Atomicity.step c crash s (.give t) = some s') :
    Related c perform crash Allowed R before s' u := by
  simp only [Atomicity.step] at hstep
  split at hstep <;> cases hstep
  rename_i b hleaving
  have hholds : (s.task t).holds = true := by
    rw [hleaving]
    rfl
  have hothers := h.others hholds
  have hdata : s.data = before := by
    refine h.rest fun t' => ?_
    by_cases htt : t' = t
    · rw [htt, hleaving]
      rfl
    · exact not_running_of_not_holds (hothers t' htt)
  have hfollows := h.follows t
  rw [hleaving] at hfollows
  generalize htask : u.task t = y at hfollows
  cases hfollows
  have hreturns : Follows c perform Allowed before s.data (.returning b) (u.task t) := by
    rw [htask]
    exact .returning b
  refine ⟨h.data, h.survives, ?_, fun _ => hdata, fun t' ht' => ?_⟩
  · exact follows_stays (fun t' _ => h.follows t') hreturns
  · dsimp only at ht'
    by_cases htt : t' = t
    · rw [htt, Function.update_self] at ht'
      cases ht'
    · rw [Function.update_of_ne htt, hothers t' htt] at ht'
      cases ht'

theorem Related.returned (h : Related c perform crash Allowed R before s u) {b : β}
    (hstep : Atomicity.step c crash s (.returned t b) = some s') :
    ∃ u', AtOnce.step perform' crash' u (.returned t b) = some u' ∧
      Related c perform crash Allowed R before s' u' := by
  simp only [Atomicity.step] at hstep
  split at hstep
  case h_2 => cases hstep
  case h_1 b' hreturning =>
      split at hstep <;> cases hstep
      rename_i heq
      have hfollows := h.follows t
      rw [hreturning] at hfollows
      generalize htask : u.task t = y at hfollows
      cases hfollows
      refine ⟨{ u with task := Function.update u.task t .idle },
        by simp [AtOnce.step, htask, heq], h.data, h.survives, ?_, fun hrest => ?_, ?_⟩
      · exact follows_update (fun t' _ => h.follows t') .idle
      · exact h.rest (not_running_of_update (by rw [hreturning]; rfl) hrest)
      · exact h.holds_update nofun

omit [DecidableEq τ] [DecidableEq β] in
/-- While nobody holds the mutex the data are those of the operations taken at once. -/
theorem Related.data_of_free (h : Related c perform crash Allowed R before s u)
    (hfree : s.owner = none) : R s.data u.data := by
  have hdata : s.data = before := by
    refine h.rest fun t => ?_
    cases hholds : (s.task t).holds with
    | false => exact not_running_of_not_holds hholds
    | true =>
        have howner := h.holds t hholds
        rw [hfree] at howner
        cases howner
  rw [hdata]
  exact h.data

omit [DecidableEq τ] [DecidableEq β] in
theorem related_start {s : σ} {v : υ} (h : R s v) :
    Related c perform crash Allowed R s (start s : State τ σ α β κ) (AtOnce.start v) :=
  ⟨h, rfl, fun _ => .idle, fun _ => rfl, nofun⟩

end Step

/-- Whatever is observed of the tasks, with crashes in the middle of their operations, can be
observed when every operation takes effect at once. -/
theorem taken_at_once (hperforms : Performs c perform crash)
    (hop : ∀ s u a, Allowed a → R s u →
      R (perform s a).1 (perform' u a).1 ∧ (perform s a).2 = (perform' u a).2)
    (hcrash : ∀ s u, R s u → R (crash s) (crash' u)) {d : σ} {v : υ} (hinit : R d v)
    {ls : List (Label τ α β)} {s : State τ σ α β κ}
    (hcalls : ∀ t a, .call t a ∈ ls → Allowed a) (h : Run (Fires (step c crash)) (start d) ls s) :
    ∃ ks u, Run (Fires (AtOnce.step perform' crash')) (AtOnce.start v) ks u ∧
      ks.filterMap AtOnce.Label.observed = ls.filterMap Label.observed ∧
        (s.owner = none → R s.data u.data) := by
  have hls : ∀ l ∈ ls, ∀ t a, l = .call t a → Allowed a := by
    rintro _ hl t a rfl
    exact hcalls t a hl
  have hfollow (s : State τ σ α β κ) (l : Label τ α β) (s' : State τ σ α β κ)
      (u : AtOnce.State τ υ α β)
      (hfires : FiresWhen (fun _ l => ∀ t a, l = .call t a → Allowed a) (step c crash) s l s')
      (hrelated : ∃ before, Related c perform crash Allowed R before s u) :
      ∃ ks u', Run (Fires (AtOnce.step perform' crash')) u ks u' ∧
        ks.filterMap AtOnce.Label.observed = (Label.observed l).toList ∧
          ∃ before, Related c perform crash Allowed R before s' u' := by
    obtain ⟨hcalls, hstep⟩ := hfires
    obtain ⟨before, hrelated⟩ := hrelated
    cases l with
    | call t a =>
        obtain ⟨u', hfires, hrelated'⟩ := hrelated.call (hcalls t a rfl) hstep
        exact ⟨[.call t a], u', .single hfires, rfl, before, hrelated'⟩
    | take t => exact ⟨[], u, .nil, rfl, before, hrelated.take hperforms hstep⟩
    | step t =>
        rcases hrelated.step hperforms hop hstep with hrelated' | ⟨before', u', hfires, hrelated'⟩
        · exact ⟨[], u, .nil, rfl, before, hrelated'⟩
        · exact ⟨[.perform t], u', .single hfires, rfl, before', hrelated'⟩
    | give t => exact ⟨[], u, .nil, rfl, before, hrelated.give hstep⟩
    | returned t b =>
        obtain ⟨u', hfires, hrelated'⟩ := hrelated.returned hstep
        exact ⟨[.returned t b], u', .single hfires, rfl, before, hrelated'⟩
    | crash =>
        cases hstep
        have hdata : R (crash s.data) (crash' u.data) := by
          rw [hrelated.survives]
          exact hcrash before u.data hrelated.data
        exact ⟨[.crash], AtOnce.start (crash' u.data), .single rfl, rfl, crash s.data,
          related_start hdata⟩
  obtain ⟨ks, u, hrun, hobserved, before, hrelated⟩ :=
    (h.firesWhen hls).simulated_observed ⟨d, related_start hinit⟩ hfollow
  exact ⟨ks, u, hrun, hobserved, hrelated.data_of_free⟩

end Following

end GbPlay.Library.Atomicity
