import GbPlay.Library.Histories

/-!
# Machines that are called

A machine is called with one input after the other.  A call returns an output and
the next state, or raises, and then there are no more calls.

* `run f s inputs`: the calls, the first one first, and what the last one raises;
* `last s calls`: the state after them;
* `Made f s calls t`: the calls, the last one first, that have been made when another
  program calls the machine.
-/

namespace GbPlay.Library.Machines

open GbPlay.Library.Histories

structure Call (σ α β : Type*) where
  before : σ
  input : α
  output : β
  after : σ
  deriving DecidableEq, Repr

variable {σ α β ε : Type*}

def run (f : σ → α → Except ε (σ × β)) (s : σ) : List α → List (Call σ α β) × Option ε
  | [] => ([], none)
  | a :: inputs =>
      match f s a with
      | .error e => ([], some e)
      | .ok (s', b) => (⟨s, a, b, s'⟩ :: (run f s' inputs).1, (run f s' inputs).2)

def last (s : σ) (calls : List (Call σ α β)) : σ := (calls.getLast?.map Call.after).getD s

/-- The machine returns what the call says. -/
def Makes (f : σ → α → Except ε (σ × β)) (c : Call σ α β) : Prop :=
  f c.before c.input = .ok (c.after, c.output)

variable {f : σ → α → Except ε (σ × β)} {s s' : σ} {a : α} {b : β} {e : ε} {inputs : List α}
  {c : Call σ α β} {pre post calls : List (Call σ α β)}

theorem run_ok (h : f s a = .ok (s', b)) (inputs : List α) :
    run f s (a :: inputs) =
      (⟨s, a, b, s'⟩ :: (run f s' inputs).1, (run f s' inputs).2) := by
  rw [run, h]

theorem run_error (h : f s a = .error e) (inputs : List α) :
    run f s (a :: inputs) = ([], some e) := by
  rw [run, h]

@[simp] theorem last_nil (s : σ) : last s ([] : List (Call σ α β)) = s := rfl

@[simp] theorem last_cons (s : σ) (c : Call σ α β) (calls : List (Call σ α β)) :
    last s (c :: calls) = last c.after calls := by
  rw [last, last, List.getLast?_cons, Option.map_some, Option.getD_some]
  cases calls.getLast? <;> rfl

/-- What follows some calls of a run is a run from the state after them. -/
theorem run_cut (h : (run f s inputs).1 = pre ++ post) :
    ∃ inputs', run f (last s pre) inputs' = (post, (run f s inputs).2) := by
  induction pre generalizing s inputs with
  | nil => exact ⟨inputs, Prod.ext h rfl⟩
  | cons c pre ih =>
      cases inputs with
      | nil => simp [run] at h
      | cons a inputs =>
          cases hcall : f s a with
          | error e => simp [run_error hcall] at h
          | ok r =>
              obtain ⟨s', b⟩ := r
              rw [run_ok hcall, List.cons_append, List.cons.injEq] at h
              obtain ⟨rfl, hrest⟩ := h
              rw [run_ok hcall, last_cons]
              exact ih hrest

theorem run_cut_cons (h : (run f s inputs).1 = pre ++ c :: post) :
    Makes f c ∧ ∃ inputs', run f c.after inputs' = (post, (run f s inputs).2) := by
  obtain ⟨inputs', hrun⟩ := run_cut h
  cases inputs' with
  | nil => simp [run] at hrun
  | cons a inputs' =>
      cases hcall : f (last s pre) a with
      | error e => simp [run_error hcall] at hrun
      | ok r =>
          obtain ⟨s', b⟩ := r
          rw [run_ok hcall, Prod.mk.injEq, List.cons.injEq] at hrun
          obtain ⟨⟨rfl, rfl⟩, hraised⟩ := hrun
          exact ⟨hcall, inputs', Prod.ext rfl hraised⟩

theorem makes_of_mem (h : c ∈ (run f s inputs).1) : Makes f c := by
  obtain ⟨pre, post, hsplit⟩ := List.append_of_mem h
  exact (run_cut_cons hsplit).1

/-- What every call keeps, if it meets the condition `H`, holds along a run whose calls do;
and so does what it brings about. -/
theorem always_run {I : σ → List (Call σ α β) → Prop} {H : Call σ α β → Prop}
    {P : Call σ α β → List (Call σ α β) → Prop}
    (hstep : ∀ c past, Makes f c → H c → I c.before past → P c past ∧ I c.after (c :: past))
    {past : List (Call σ α β)} (hinit : I s past) (hpast : Always P past)
    (h : ∀ c ∈ (run f s inputs).1, H c) : Always P ((run f s inputs).1.reverse ++ past) := by
  induction inputs generalizing s past with
  | nil => exact hpast
  | cons a inputs ih =>
      cases hcall : f s a with
      | error e => rwa [run_error hcall]
      | ok r =>
          obtain ⟨s', b⟩ := r
          rw [run_ok hcall] at h ⊢
          obtain ⟨hnow, hnext⟩ :=
            hstep ⟨s, a, b, s'⟩ past hcall (h _ List.mem_cons_self) hinit
          rw [List.reverse_cons, List.append_assoc]
          exact ih hnext ⟨hnow, hpast⟩ fun c hc => h c (List.mem_cons_of_mem _ hc)

theorem always_calls {I : σ → List (Call σ α β) → Prop} {H : Call σ α β → Prop}
    {P : Call σ α β → List (Call σ α β) → Prop}
    (hstep : ∀ c past, Makes f c → H c → I c.before past → P c past ∧ I c.after (c :: past))
    (hinit : I s []) (h : ∀ c ∈ (run f s inputs).1, H c) :
    Always P (run f s inputs).1.reverse := by
  rw [← List.append_nil (List.reverse _)]
  exact always_run hstep hinit trivial h

/-- What every call keeps holds of the states of a run. -/
theorem invariant_run {I : σ → Prop} (hstep : ∀ c, Makes f c → I c.before → I c.after)
    (hinit : I s) (h : c ∈ (run f s inputs).1) : I c.before ∧ I c.after := by
  have halways : Always (fun c _ => I c.before ∧ I c.after) (run f s inputs).1.reverse := by
    refine always_calls (H := fun _ => True) (I := fun s _ => I s) ?_ hinit fun _ _ => trivial
    intro c past hmakes _ hbefore
    exact ⟨⟨hbefore, hstep c hmakes hbefore⟩, hstep c hmakes hbefore⟩
  obtain ⟨_, hstates⟩ := halways.of_mem (List.mem_reverse.mpr h)
  exact hstates

theorem raised_of_run (h : (run f s inputs).2 = some e) : ∃ s' a, f s' a = .error e := by
  induction inputs generalizing s with
  | nil => cases h
  | cons a inputs ih =>
      cases hcall : f s a with
      | error e' =>
          rw [run_error hcall] at h
          obtain rfl : e' = e := Option.some.inj h
          exact ⟨s, a, hcall⟩
      | ok r =>
          obtain ⟨s', b⟩ := r
          rw [run_ok hcall] at h
          exact ih h

/-! ## Calls that are made as the run goes on -/

/-- What the machine has been called with, in order. -/
def passed (calls : List (Call σ α β)) : List α := (calls.map Call.input).reverse

/-- What it has returned, in order. -/
def returned (calls : List (Call σ α β)) : List β := (calls.map Call.output).reverse

@[simp] theorem passed_cons (c : Call σ α β) (calls : List (Call σ α β)) :
    passed (c :: calls) = passed calls ++ [c.input] := by
  simp [passed]

@[simp] theorem returned_cons (c : Call σ α β) (calls : List (Call σ α β)) :
    returned (c :: calls) = returned calls ++ [c.output] := by
  simp [returned]

theorem returned_append (calls past : List (Call σ α β)) :
    returned (calls ++ past) = returned past ++ returned calls := by
  rw [returned, List.map_append, List.reverse_append, returned, returned]

inductive Made (f : σ → α → Except ε (σ × β)) (s : σ) : List (Call σ α β) → σ → Prop
  | nil : Made f s [] s
  | cons {calls : List (Call σ α β)} {t u : σ} {a : α} {b : β} : Made f s calls t →
      f t a = .ok (u, b) → Made f s (⟨t, a, b, u⟩ :: calls) u

/-- What every call keeps holds when they have been made, and so does what it brings about. -/
theorem Made.always {t : σ} {I : σ → List (Call σ α β) → Prop}
    {P : Call σ α β → List (Call σ α β) → Prop}
    (hstep : ∀ c past, Makes f c → I c.before past → P c past ∧ I c.after (c :: past))
    (hinit : I s []) (h : Made f s calls t) : Always P calls ∧ I t calls := by
  induction h with
  | nil => exact ⟨trivial, hinit⟩
  | @cons calls t u a b _ hcall ih =>
      obtain ⟨hpast, hbefore⟩ := ih
      obtain ⟨hnow, hafter⟩ := hstep ⟨t, a, b, u⟩ calls hcall hbefore
      exact ⟨⟨hnow, hpast⟩, hafter⟩

end GbPlay.Library.Machines
