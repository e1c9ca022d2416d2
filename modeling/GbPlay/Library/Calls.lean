import Mathlib.Data.List.Basic
import Mathlib.Tactic.Common

/-!
# Programs that call their environment

A `Program` makes calls, whose answers it does not control, and returns a value.
`Returns p t a` says that `p` returns `a` after just the calls of the trace `t`
when they are answered as in `t`; what holds for every trace holds for every
environment.

* `Ensures p Q`: whatever the answers, `Q` holds of the calls made and the value
  returned;
* `loop body n s`: the turns of a loop, `n` of them at most;
* `replay p t`: what `p` returns when its calls are answered as in `t`.
-/

namespace GbPlay.Library.Calls

variable {C : Type} {R : C → Type} {α β σ : Type}

/-- `R c` is the type of the answers to the call `c`. -/
inductive Program (R : C → Type) (α : Type)
  | done (a : α)
  | call (c : C) (next : R c → Program R α)
  /-- Never returns: a failed assertion, or a loop that has used up its turns. -/
  | stuck

/-- A call and its answer. -/
structure Event (R : C → Type) where
  call : C
  answer : R call

abbrev Trace (R : C → Type) := List (Event R)

namespace Program

def bind (f : α → Program R β) : Program R α → Program R β
  | .done a => f a
  | .call c next => .call c fun r => bind f (next r)
  | .stuck => .stuck

instance : Monad (Program R) where
  pure := .done
  bind p f := p.bind f

def perform (c : C) : Program R (R c) := .call c .done

/-- A turn of a loop ends with the next state of the loop or leaves it with a value. -/
def loop (body : σ → Program R (σ ⊕ α)) : Nat → σ → Program R α
  | 0, _ => .stuck
  | turns + 1, s => body s >>= fun
      | .inl s' => loop body turns s'
      | .inr a => pure a

inductive Returns : Program R α → Trace R → α → Prop
  | done (a : α) : Returns (.done a) [] a
  | call {c : C} {next : R c → Program R α} {r : R c} {t : Trace R} {a : α} :
      Returns (next r) t a → Returns (.call c next) (⟨c, r⟩ :: t) a

def replay [DecidableEq C] : Program R α → Trace R → Option α
  | .done a, [] => some a
  | .call c next, e :: t => if h : e.call = c then (next (h ▸ e.answer)).replay t else none
  | _, _ => none

/-- What holds of the calls and the value whenever the program returns. -/
def Ensures (p : Program R α) (Q : Trace R → α → Prop) : Prop :=
  ∀ t a, p.Returns t a → Q t a

variable {p : Program R α} {f : α → Program R β} {c : C} {next : R c → Program R α}
  {body : σ → Program R (σ ⊕ α)} {t : Trace R} {a : α} {b : β}

/-! ## How programs return -/

theorem returns_done_iff {a' : α} : (done a' : Program R α).Returns t a ↔ t = [] ∧ a = a' := by
  constructor
  · intro h
    cases h
    exact ⟨rfl, rfl⟩
  · rintro ⟨rfl, rfl⟩
    exact .done a

theorem returns_call_iff :
    (call c next).Returns t a ↔ ∃ r t', t = ⟨c, r⟩ :: t' ∧ (next r).Returns t' a := by
  constructor
  · intro h
    cases h with
    | call h => exact ⟨_, _, rfl, h⟩
  · rintro ⟨r, t', rfl, h⟩
    exact .call h

theorem returns_perform_iff {f : R c → Program R β} :
    (perform c >>= f).Returns t b ↔ ∃ r t', t = ⟨c, r⟩ :: t' ∧ (f r).Returns t' b :=
  returns_call_iff

theorem not_returns_stuck : ¬ (stuck : Program R α).Returns t a := nofun

theorem returns_bind_iff :
    (p >>= f).Returns t b ↔
      ∃ a t₁ t₂, t = t₁ ++ t₂ ∧ p.Returns t₁ a ∧ (f a).Returns t₂ b := by
  show (p.bind f).Returns t b ↔ _
  induction p generalizing t with
  | done a' =>
      simp only [bind, returns_done_iff]
      constructor
      · intro h
        exact ⟨a', [], t, rfl, ⟨rfl, rfl⟩, h⟩
      · rintro ⟨a, t₁, t₂, rfl, ⟨rfl, rfl⟩, h⟩
        exact h
  | call c next ih =>
      simp only [bind, returns_call_iff, ih]
      constructor
      · rintro ⟨r, t', rfl, a, t₁, t₂, rfl, hp, hf⟩
        exact ⟨a, ⟨c, r⟩ :: t₁, t₂, rfl, ⟨r, t₁, rfl, hp⟩, hf⟩
      · rintro ⟨a, t₁, t₂, rfl, ⟨r, t', rfl, hp⟩, hf⟩
        exact ⟨r, t' ++ t₂, rfl, a, t', t₂, rfl, hp, hf⟩
  | stuck => simp [bind, not_returns_stuck]

theorem returns_of_replay [DecidableEq C] (h : p.replay t = some a) : p.Returns t a := by
  induction p generalizing t with
  | done a' =>
      cases t with
      | nil => exact returns_done_iff.mpr ⟨rfl, (Option.some.inj h).symm⟩
      | cons e t => simp [replay] at h
  | call c next ih =>
      cases t with
      | nil => simp [replay] at h
      | cons e t =>
          obtain ⟨c', r⟩ := e
          rw [replay] at h
          split at h
          case isTrue hc =>
              obtain rfl : c' = c := hc
              exact .call (ih _ h)
          case isFalse => simp at h
  | stuck => simp [replay] at h

/-! ## Rules for `Ensures` -/

theorem Ensures.mono {Q Q' : Trace R → α → Prop} (h : p.Ensures Q)
    (hQ : ∀ t a, Q t a → Q' t a) : p.Ensures Q' := fun t a hreturns => hQ t a (h t a hreturns)

theorem ensures_pure {Q : Trace R → α → Prop} (h : Q [] a) :
    (pure a : Program R α).Ensures Q := by
  intro t a' hreturns
  obtain ⟨rfl, rfl⟩ := returns_done_iff.mp hreturns
  exact h

theorem ensures_stuck {Q : Trace R → α → Prop} : (stuck : Program R α).Ensures Q :=
  fun _ _ h => absurd h not_returns_stuck

theorem ensures_bind {Q : Trace R → β → Prop}
    (h : p.Ensures fun t₁ a => (f a).Ensures fun t₂ b => Q (t₁ ++ t₂) b) :
    (p >>= f).Ensures Q := by
  intro t b hreturns
  obtain ⟨a, t₁, t₂, rfl, hp, hf⟩ := returns_bind_iff.mp hreturns
  exact h t₁ a hp t₂ b hf

theorem ensures_perform {f : R c → Program R β} {Q : Trace R → β → Prop}
    (h : ∀ r, (f r).Ensures fun t b => Q (⟨c, r⟩ :: t) b) : (perform c >>= f).Ensures Q := by
  intro t b hreturns
  obtain ⟨r, t', rfl, hf⟩ := returns_perform_iff.mp hreturns
  exact h r t' b hf

/-- What every turn of a loop adds to, and leaves the invariant `I` for, the loop ensures. -/
theorem ensures_loop {I : σ → Prop} {Q : σ → Trace R → α → Prop}
    (h : ∀ s, I s → (body s).Ensures fun t r =>
      match r with
      | .inl s' => I s' ∧ ∀ t' a, Q s' t' a → Q s (t ++ t') a
      | .inr a => Q s t a) (turns : Nat) (s : σ) (hs : I s) :
    (loop body turns s).Ensures (Q s) := by
  induction turns generalizing s with
  | zero => exact ensures_stuck
  | succ turns ih =>
      apply ensures_bind
      intro t r hreturns
      have hbody := h s hs t r hreturns
      cases r with
      | inl s' =>
          obtain ⟨hs', hrest⟩ := hbody
          exact fun t' a hloop => hrest t' a (ih s' hs' t' a hloop)
      | inr a =>
          apply ensures_pure
          rw [List.append_nil]
          exact hbody

/-! ## Loops -/

/-- A loop that has returned does so with more turns too. -/
theorem returns_loop_of_le {turns turns' : Nat} {s : σ} (hle : turns ≤ turns')
    (h : (loop body turns s).Returns t a) : (loop body turns' s).Returns t a := by
  induction turns generalizing turns' s t with
  | zero => exact absurd h not_returns_stuck
  | succ turns ih =>
      obtain ⟨turns', rfl⟩ : ∃ n, turns' = n + 1 := ⟨turns' - 1, by omega⟩
      obtain ⟨r, t₁, t₂, rfl, hbody, hrest⟩ := returns_bind_iff.mp h
      refine returns_bind_iff.mpr ⟨r, t₁, t₂, rfl, hbody, ?_⟩
      cases r with
      | inl s' => exact ih (by omega) hrest
      | inr a' => exact hrest

/-! ## Programs that return -/

/-- No answers make the program get stuck. -/
def Total : Program R α → Prop
  | .done _ => True
  | .call _ next => ∀ r, (next r).Total
  | .stuck => False

theorem total_pure (a : α) : (pure a : Program R α).Total := trivial

theorem total_perform {f : R c → Program R β} (h : ∀ r, (f r).Total) :
    (perform c >>= f).Total := h

/-- The calls are answered by `answers`, from the `k`-th answer on. -/
def AnsweredFrom (answers : Nat → (c : C) → R c) : Nat → Trace R → Prop
  | _, [] => True
  | k, e :: t => e.answer = answers k e.call ∧ AnsweredFrom answers (k + 1) t

section Answered

variable {answers : Nat → (c : C) → R c} {k : Nat} {t' : Trace R}

theorem AnsweredFrom.append (h : AnsweredFrom answers k t)
    (h' : AnsweredFrom answers (k + t.length) t') : AnsweredFrom answers k (t ++ t') := by
  induction t generalizing k with
  | nil => exact h'
  | cons e t ih =>
      refine ⟨h.1, ih h.2 ?_⟩
      rwa [List.length_cons, Nat.add_comm t.length, ← Nat.add_assoc] at h'

theorem Total.returns (h : p.Total) (answers : Nat → (c : C) → R c) (k : Nat) :
    ∃ t a, p.Returns t a ∧ AnsweredFrom answers k t := by
  induction p generalizing k with
  | done a => exact ⟨[], a, .done a, trivial⟩
  | call c next ih =>
      obtain ⟨t, a, hreturns, hanswered⟩ := ih (answers k c) (h _) (k + 1)
      exact ⟨⟨c, answers k c⟩ :: t, a, .call hreturns, rfl, hanswered⟩
  | stuck => exact h.elim

/-- With turns enough, the loop returns when it is answered from the `k`-th answer on. -/
def LoopReturns (answers : Nat → (c : C) → R c) (body : σ → Program R (σ ⊕ α)) (k : Nat) (s : σ) :
    Prop :=
  ∃ turns t a, (loop body turns s).Returns t a ∧ AnsweredFrom answers k t

theorem loopReturns_of_turn {s s' : σ} (hturn : (body s).Returns t (.inl s'))
    (hanswered : AnsweredFrom answers k t) (h : LoopReturns answers body (k + t.length) s') :
    LoopReturns answers body k s := by
  obtain ⟨turns, t', a, hloop, hanswered'⟩ := h
  exact ⟨turns + 1, t ++ t', a, returns_bind_iff.mpr ⟨_, t, t', rfl, hturn, hloop⟩,
    hanswered.append hanswered'⟩

variable {I : σ → Prop} {left : σ → Nat} {Idle : Event R → Prop}

/-- A turn leaves less to do, or it is idle. -/
def Advances (body : σ → Program R (σ ⊕ α)) (I : σ → Prop) (left : σ → Nat)
    (Idle : Event R → Prop) : Prop :=
  ∀ s, I s → (body s).Total ∧ (body s).Ensures fun t r => ∀ s', r = .inl s' →
    I s' ∧ (left s' < left s ∨ s' = s ∧ ∃ e, t = [e] ∧ Idle e)

theorem Advances.turn (h : Advances body I left Idle) {s : σ} (hs : I s)
    (hless : ∀ s', I s' → left s' < left s → ∀ k, LoopReturns answers body k s')
    (hidle : ∀ c, Idle ⟨c, answers k c⟩ → LoopReturns answers body (k + 1) s) :
    LoopReturns answers body k s := by
  obtain ⟨htotal, hturn⟩ := h s hs
  obtain ⟨t, r, hreturns, hanswered⟩ := htotal.returns answers k
  rcases r with s' | a
  · obtain ⟨hs', hleft | ⟨rfl, e, rfl, he⟩⟩ := hturn t _ hreturns s' rfl
    · exact loopReturns_of_turn hreturns hanswered (hless s' hs' hleft _)
    · obtain ⟨c, r⟩ := e
      obtain rfl : r = answers k c := hanswered.1
      exact loopReturns_of_turn hreturns hanswered (hidle c he)
  · refine ⟨1, t, a, returns_bind_iff.mpr ⟨_, t, [], ?_, hreturns, .done a⟩, hanswered⟩
    exact (List.append_nil t).symm

/-- A loop whose turns advance returns, if it is not idle for ever. -/
theorem Advances.loopReturns (h : Advances body I left Idle)
    (hlively : ∀ k, ∃ j, k ≤ j ∧ ∀ c, ¬ Idle ⟨c, answers j c⟩) {s : σ} (hs : I s) (k : Nat) :
    LoopReturns answers body k s := by
  induction hn : left s using Nat.strongRecOn generalizing s k with
  | ind n ih =>
      have hless : ∀ s', I s' → left s' < left s → ∀ k, LoopReturns answers body k s' :=
        fun s' hs' hleft k => ih _ (hn ▸ hleft) hs' k rfl
      obtain ⟨j, hj, hnot⟩ := hlively k
      obtain ⟨d, rfl⟩ := Nat.exists_eq_add_of_le hj
      -- the loop can be idle for at most `d` turns more
      induction d generalizing k with
      | zero => exact h.turn hs hless fun c hidle => absurd hidle (hnot c)
      | succ d ihd =>
          refine h.turn hs hless fun _ _ => ihd (k + 1) (Nat.le_add_right _ _) ?_
          rwa [Nat.add_comm d, ← Nat.add_assoc] at hnot

end Answered

end Program

end GbPlay.Library.Calls
