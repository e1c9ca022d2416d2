import GbPlay.Library.Calls

/-!
# Programs that have not returned

What a program has done at a moment of its run, whether or not it will ever return:
`Begins p t` says that the first calls of `p` are those of `t`.

* `Always p Q`: whatever the answers, `Q` holds at every moment of the calls made so far;
* `OnlyCalls P p`: every call of `p` meets `P`;
* `interpret h p`: the program whose calls are carried out by the programs `h`.
-/

namespace GbPlay.Library.Calls

variable {C C' : Type} {R : C → Type} {R' : C' → Type} {α β σ : Type}

namespace Program

inductive Begins : Program R α → Trace R → Prop
  | nil (p : Program R α) : Begins p []
  | call {c : C} {next : R c → Program R α} {r : R c} {t : Trace R} :
      Begins (next r) t → Begins (.call c next) (⟨c, r⟩ :: t)

/-- Whether the program can begin with the calls of the trace. -/
def beginsWith [DecidableEq C] : Program R α → Trace R → Bool
  | _, [] => true
  | .call c next, e :: t => if h : e.call = c then (next (h ▸ e.answer)).beginsWith t else false
  | _, _ :: _ => false

/-- The rest of the program when its next call is that of the event. -/
def resume [DecidableEq C] : Program R α → Event R → Option (Program R α)
  | .call c next, e => if h : e.call = c then some (next (h ▸ e.answer)) else none
  | _, _ => none

def Always (p : Program R α) (Q : Trace R → Prop) : Prop := ∀ t, p.Begins t → Q t

def OnlyCalls (P : C → Prop) : Program R α → Prop
  | .done _ => True
  | .call c next => P c ∧ ∀ r, (next r).OnlyCalls P
  | .stuck => True

def interpret (h : (c : C) → Program R' (R c)) : Program R α → Program R' α
  | .done a => .done a
  | .call c next => (h c).bind fun r => (next r).interpret h
  | .stuck => .stuck

variable {p : Program R α} {f : α → Program R β} {c : C} {next : R c → Program R α}
  {body : σ → Program R (σ ⊕ α)} {t t' : Trace R} {a : α} {P : C → Prop} {Q : Trace R → Prop}

theorem bind_bind {γ : Type} (p : Program R α) (f : α → Program R β) (g : β → Program R γ) :
    (p >>= f) >>= g = p >>= fun a => f a >>= g := by
  show (p.bind f).bind g = p.bind fun a => (f a).bind g
  induction p with
  | done a => rfl
  | stuck => rfl
  | call c next ih => exact congrArg (Program.call c) (funext ih)

/-! ## How programs begin -/

theorem begins_of_beginsWith [DecidableEq C] (h : p.beginsWith t = true) : p.Begins t := by
  induction t generalizing p with
  | nil => exact .nil p
  | cons e t ih =>
      cases p with
      | done a => simp [beginsWith] at h
      | stuck => simp [beginsWith] at h
      | call c next =>
          obtain ⟨c', r⟩ := e
          rw [beginsWith] at h
          split at h
          case isTrue hc =>
              obtain rfl : c' = c := hc
              exact .call (ih h)
          case isFalse => simp at h

theorem begins_of_returns (h : p.Returns t a) : p.Begins t := by
  induction h with
  | done a => exact .nil _
  | call _ ih => exact .call ih

theorem begins_of_append (h : p.Begins (t ++ t')) : p.Begins t := by
  induction t generalizing p with
  | nil => exact .nil p
  | cons e t ih =>
      cases h with
      | call h => exact .call (ih h)

theorem eq_nil_of_begins_done (h : (done a : Program R α).Begins t) : t = [] := by
  cases h with
  | nil => rfl

theorem eq_nil_of_begins_stuck (h : (stuck : Program R α).Begins t) : t = [] := by
  cases h with
  | nil => rfl

theorem begins_bind (h : (p >>= f).Begins t) :
    p.Begins t ∨ ∃ a t₁ t₂, t = t₁ ++ t₂ ∧ p.Returns t₁ a ∧ (f a).Begins t₂ := by
  replace h : (p.bind f).Begins t := h
  induction p generalizing t with
  | done a => exact .inr ⟨a, [], t, rfl, .done a, h⟩
  | stuck => exact .inl (eq_nil_of_begins_stuck h ▸ .nil _)
  | call c next ih =>
      cases h with
      | nil => exact .inl (.nil _)
      | call h =>
          rcases ih _ h with hbegins | ⟨a, t₁, t₂, rfl, hreturns, hbegins⟩
          · exact .inl (.call hbegins)
          · exact .inr ⟨a, _ :: t₁, t₂, rfl, .call hreturns, hbegins⟩

theorem resume_eq_some [DecidableEq C] {e : Event R} {q : Program R α}
    (h : p.resume e = some q) : ∃ next, p = .call e.call next ∧ q = next e.answer := by
  cases p with
  | done a => cases h
  | stuck => cases h
  | call c next =>
      obtain ⟨c', r⟩ := e
      rw [resume] at h
      split at h
      case isTrue hc =>
          obtain rfl : c' = c := hc
          exact ⟨next, rfl, (Option.some.inj h).symm⟩
      case isFalse => cases h

/-! ## Rules for `Always` -/

theorem Always.mono {Q' : Trace R → Prop} (h : p.Always Q) (hQ : ∀ t, Q t → Q' t) :
    p.Always Q' := fun t hbegins => hQ t (h t hbegins)

/-- What holds at every moment holds in the end. -/
theorem Always.ensures (h : p.Always Q) :
    p.Ensures fun t _ => ∀ before, before <+: t → Q before := by
  rintro t a hreturns before ⟨rest, rfl⟩
  exact h before (begins_of_append (begins_of_returns hreturns))

theorem always_pure (h : Q []) : (pure a : Program R α).Always Q := by
  intro t hbegins
  rw [eq_nil_of_begins_done hbegins]
  exact h

theorem always_stuck (h : Q []) : (stuck : Program R α).Always Q := by
  intro t hbegins
  rw [eq_nil_of_begins_stuck hbegins]
  exact h

theorem always_bind (h : p.Always Q)
    (hf : p.Ensures fun t₁ a => (f a).Always fun t₂ => Q (t₁ ++ t₂)) : (p >>= f).Always Q := by
  intro t hbegins
  rcases begins_bind hbegins with hbegins | ⟨a, t₁, t₂, rfl, hreturns, hbegins⟩
  · exact h t hbegins
  · exact hf t₁ a hreturns t₂ hbegins

theorem always_perform {f : R c → Program R β} (h : Q [])
    (hf : ∀ r, (f r).Always fun t => Q (⟨c, r⟩ :: t)) : (perform c >>= f).Always Q := by
  intro t hbegins
  replace hbegins : (call c f).Begins t := hbegins
  cases hbegins with
  | nil => exact h
  | call hbegins => exact hf _ _ hbegins

/-- What every turn of a loop adds to, and leaves the invariant `I` for, holds at every
moment of the loop. -/
theorem always_loop {I : σ → Prop} {Q : σ → Trace R → Prop} (hnil : ∀ s, I s → Q s [])
    (hbody : ∀ s, I s → (body s).Always (Q s))
    (hturn : ∀ s, I s → (body s).Ensures fun t r => ∀ s', r = .inl s' →
      I s' ∧ ∀ t', Q s' t' → Q s (t ++ t'))
    (turns : Nat) (s : σ) (hs : I s) : (loop body turns s).Always (Q s) := by
  induction turns generalizing s with
  | zero => exact always_stuck (hnil s hs)
  | succ turns ih =>
      refine always_bind (hbody s hs) fun t r hreturns => ?_
      cases r with
      | inl s' =>
          obtain ⟨hs', hadd⟩ := hturn s hs t _ hreturns s' rfl
          exact (ih s' hs').mono hadd
      | inr a =>
          apply always_pure
          rw [List.append_nil]
          exact hbody s hs t (begins_of_returns hreturns)

/-- A program that cannot get stuck begins as it does when it returns. -/
theorem Total.always (h : p.Total) (hensures : p.Ensures fun t _ => Q t)
    (hbefore : ∀ t t', Q (t ++ t') → Q t) (answers : (c : C) → R c) : p.Always Q := by
  intro t hbegins
  suffices hextends : ∃ t' a, p.Returns (t ++ t') a by
    obtain ⟨t', a, hreturns⟩ := hextends
    exact hbefore t t' (hensures _ a hreturns)
  clear hensures
  induction hbegins with
  | nil p =>
      obtain ⟨t', a, hreturns, _⟩ := h.returns (fun _ => answers) 0
      exact ⟨t', a, hreturns⟩
  | call _ ih =>
      obtain ⟨t', a, hreturns⟩ := ih (h _)
      exact ⟨t', a, .call hreturns⟩

/-! ## The calls a program can make -/

theorem onlyCalls_pure (a : α) : (pure a : Program R α).OnlyCalls P := trivial

theorem onlyCalls_perform {f : R c → Program R β} (h : P c) (hf : ∀ r, (f r).OnlyCalls P) :
    (perform c >>= f).OnlyCalls P := ⟨h, hf⟩

theorem OnlyCalls.mono {P' : C → Prop} (h : p.OnlyCalls P) (hP : ∀ c, P c → P' c) :
    p.OnlyCalls P' := by
  induction p with
  | done a => trivial
  | stuck => trivial
  | call c next ih => exact ⟨hP c h.1, fun r => ih r (h.2 r)⟩

theorem onlyCalls_bind (h : p.OnlyCalls P) (hf : ∀ a, (f a).OnlyCalls P) :
    (p >>= f).OnlyCalls P := by
  show (p.bind f).OnlyCalls P
  induction p with
  | done a => exact hf a
  | call c next ih => exact ⟨h.1, fun r => ih r (h.2 r)⟩
  | stuck => trivial

theorem onlyCalls_loop (h : ∀ s, (body s).OnlyCalls P) (turns : Nat) (s : σ) :
    (loop body turns s).OnlyCalls P := by
  induction turns generalizing s with
  | zero => trivial
  | succ turns ih =>
      refine onlyCalls_bind (h s) fun r => ?_
      cases r with
      | inl s' => exact ih s'
      | inr a => exact onlyCalls_pure a

theorem OnlyCalls.always (h : p.OnlyCalls P) : p.Always fun t => ∀ e ∈ t, P e.call := by
  intro t hbegins
  induction hbegins with
  | nil p => simp
  | call _ ih =>
      intro e he
      rcases List.mem_cons.mp he with rfl | he
      · exact h.1
      · exact ih (h.2 _) e he

theorem OnlyCalls.ensures (h : p.OnlyCalls P) : p.Ensures fun t _ => ∀ e ∈ t, P e.call :=
  fun t _ hreturns => h.always t (begins_of_returns hreturns)

/-! ## Calls that are made as calls of another kind -/

section Embed

/-- Every call `c` is made as the call `g c`. -/
def embed (g : C → C') (answer : (c : C) → R' (g c) → R c) : Program R α → Program R' α :=
  interpret fun c => .call (g c) fun r => .done (answer c r)

variable {g : C → C'} {answer : (c : C) → R' (g c) → R c} {project : Event R' → Option (Event R)}

theorem returns_of_embed (hproject : ∀ c r, project ⟨g c, r⟩ = some ⟨c, answer c r⟩)
    {u : Trace R'} (h : (embed g answer p).Returns u a) : p.Returns (u.filterMap project) a := by
  induction p generalizing u with
  | done a' =>
      obtain ⟨rfl, rfl⟩ := returns_done_iff.mp h
      exact .done _
  | stuck => exact absurd h not_returns_stuck
  | call c next ih =>
      obtain ⟨r, v, rfl, hrest⟩ := returns_call_iff.mp h
      rw [List.filterMap_cons_some (hproject c r)]
      exact .call (ih _ hrest)

theorem begins_of_embed (hproject : ∀ c r, project ⟨g c, r⟩ = some ⟨c, answer c r⟩)
    {u : Trace R'} (h : (embed g answer p).Begins u) : p.Begins (u.filterMap project) := by
  induction p generalizing u with
  | done a =>
      rw [eq_nil_of_begins_done h]
      exact .nil _
  | stuck =>
      rw [eq_nil_of_begins_stuck h]
      exact .nil _
  | call c next ih =>
      generalize hq : embed g answer (.call c next) = q at h
      cases h with
      | nil => exact .nil _
      | call h =>
          cases hq
          rw [List.filterMap_cons_some (hproject c _)]
          exact .call (ih _ h)

theorem OnlyCalls.embed {P' : C' → Prop} (h : p.OnlyCalls fun c => P' (g c)) :
    (embed g answer p).OnlyCalls P' := by
  induction p with
  | done a => trivial
  | stuck => trivial
  | call c next ih => exact ⟨h.1, fun r => ih _ (h.2 _)⟩

end Embed

end Program

end GbPlay.Library.Calls
