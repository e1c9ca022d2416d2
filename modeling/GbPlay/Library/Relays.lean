import GbPlay.Library.Runs

/-!
# Relays in front of a device

A device answers every request, and changes its state.  It is reached through a
component: requests go into a channel of the component, and answers come out of
another one, as the steps of the component bring them there.

* `Serves c device R`: asked for one answer at a time, `c` answers as the device
  does; `R` says in which phase of an answer a state of `c` is;
* `Responds c R alive rank n`: it answers after at most `n` steps more than it
  had left to do, unless it has failed;
* `relayed c`: a party in front of `c` that passes on a request and waits for
  the answer, which it returns.

A relay in front of a component serves the same device, and so does any chain of
relays.
-/

namespace GbPlay.Library.Relays

open GbPlay.Library.Runs

variable {γ σ ℓ α β : Type*}

/-- `idle g`: all requests have been answered, and the device is in the state `g`. -/
inductive Phase (γ α β : Type*)
  | idle (g : γ)
  | asked (g : γ) (a : α)
  | answered (g : γ) (b : β)

/-- The device has not moved, or has served the request. -/
def Serving (device : γ → α → γ × β) (p p' : Phase γ α β) : Prop :=
  p' = p ∨ ∃ g a, p = .asked g a ∧ p' = .answered (device g a).1 (device g a).2

structure Component (σ ℓ α β : Type*) where
  /-- A request is written to the component. -/
  ask : σ → α → σ
  step : σ → ℓ → Option σ
  /-- An answer is read from the component. -/
  answer : σ → Option (β × σ)

structure Serves (c : Component σ ℓ α β) (device : γ → α → γ × β) (R : σ → Phase γ α β → Prop) :
    Prop where
  ask : ∀ {s g}, R s (.idle g) → ∀ a, R (c.ask s a) (.asked g a)
  step : ∀ {s s' p l}, R s p → c.step s l = some s' → ∃ p', Serving device p p' ∧ R s' p'
  answer : ∀ {s s' p b}, R s p → c.answer s = some (b, s') →
    ∃ g, p = .answered g b ∧ R s' (.idle g)

/-- `rank` bounds the steps that the component still takes by itself. -/
structure Responds (c : Component σ ℓ α β) (R : σ → Phase γ α β → Prop) (alive : σ → Prop)
    (rank : σ → Nat) (n : Nat) : Prop where
  ask : ∀ s a, rank (c.ask s a) ≤ rank s + n ∧ (alive (c.ask s a) ↔ alive s)
  step : ∀ {s s' l}, c.step s l = some s' → alive s' → alive s ∧ rank s' < rank s
  answer : ∀ {s s' b}, c.answer s = some (b, s') → rank s' ≤ rank s ∧ (alive s' ↔ alive s)
  ready : ∀ {s p}, R s p → alive s → (∀ g, p ≠ .idle g) →
    (c.answer s).isSome ∨ ∃ l s', c.step s l = some s' ∧ alive s'

/-! ## A relay -/

/-- Where a relay stands.  One that starts by `waking` drops the first answer. -/
inductive Relay (α β : Type*)
  | waking
  | receiving
  | passing (a : α)
  | waiting
  | returning (b : β)
  deriving DecidableEq, Repr

structure Relayed (σ α β : Type*) where
  requests : List α := []
  relay : Relay α β
  running : Bool := true
  answers : List β := []
  inner : σ

inductive RelayLabel (ℓ : Type*)
  | wake
  | receive
  | pass
  | collect
  | deliver
  | fail
  | inner (l : ℓ)
  deriving DecidableEq, Repr

def relayStep (c : Component σ ℓ α β) (s : Relayed σ α β) : RelayLabel ℓ → Option (Relayed σ α β)
  | .inner l => (c.step s.inner l).map fun inner => { s with inner }
  | .fail => if s.running then some { s with running := false } else none
  | .wake =>
      match s.running, s.relay, c.answer s.inner with
      | true, .waking, some (_, inner) => some { s with relay := .receiving, inner }
      | _, _, _ => none
  | .receive =>
      match s.running, s.relay, s.requests with
      | true, .receiving, a :: requests => some { s with relay := .passing a, requests }
      | _, _, _ => none
  | .pass =>
      match s.running, s.relay with
      | true, .passing a => some { s with relay := .waiting, inner := c.ask s.inner a }
      | _, _ => none
  | .collect =>
      match s.running, s.relay, c.answer s.inner with
      | true, .waiting, some (b, inner) => some { s with relay := .returning b, inner }
      | _, _, _ => none
  | .deliver =>
      match s.running, s.relay with
      | true, .returning b => some { s with relay := .receiving, answers := s.answers ++ [b] }
      | _, _ => none

def relayed (c : Component σ ℓ α β) : Component (Relayed σ α β) (RelayLabel ℓ) α β where
  ask s a := { s with requests := s.requests ++ [a] }
  step := relayStep c
  answer s :=
    match s.answers with
    | [] => none
    | b :: answers => some (b, { s with answers })

inductive RelayMove (c : Component σ ℓ α β) (s : Relayed σ α β) :
    RelayLabel ℓ → Relayed σ α β → Prop
  | inner {l : ℓ} {inner : σ} : c.step s.inner l = some inner →
      RelayMove c s (.inner l) { s with inner }
  | fail : s.running = true → RelayMove c s .fail { s with running := false }
  | wake {b : β} {inner : σ} : s.running = true → s.relay = .waking →
      c.answer s.inner = some (b, inner) →
      RelayMove c s .wake { s with relay := .receiving, inner }
  | receive {a : α} {requests : List α} : s.running = true → s.relay = .receiving →
      s.requests = a :: requests →
      RelayMove c s .receive { s with relay := .passing a, requests }
  | pass {a : α} : s.running = true → s.relay = .passing a →
      RelayMove c s .pass { s with relay := .waiting, inner := c.ask s.inner a }
  | collect {b : β} {inner : σ} : s.running = true → s.relay = .waiting →
      c.answer s.inner = some (b, inner) →
      RelayMove c s .collect { s with relay := .returning b, inner }
  | deliver {b : β} : s.running = true → s.relay = .returning b →
      RelayMove c s .deliver { s with relay := .receiving, answers := s.answers ++ [b] }

theorem relayMove_of_step {c : Component σ ℓ α β} {s s' : Relayed σ α β} {l : RelayLabel ℓ}
    (h : relayStep c s l = some s') : RelayMove c s l s' := by
  cases l with
  | inner l =>
      obtain ⟨inner, hstep, rfl⟩ := Option.map_eq_some_iff.mp h
      exact .inner hstep
  | fail =>
      simp only [relayStep] at h
      split at h <;> cases h
      exact .fail ‹_›
  | wake =>
      simp only [relayStep] at h
      split at h <;> cases h
      exact .wake ‹_› ‹_› ‹_›
  | receive =>
      simp only [relayStep] at h
      split at h <;> cases h
      exact .receive ‹_› ‹_› ‹_›
  | pass =>
      simp only [relayStep] at h
      split at h <;> cases h
      exact .pass ‹_› ‹_›
  | collect =>
      simp only [relayStep] at h
      split at h <;> cases h
      exact .collect ‹_› ‹_› ‹_›
  | deliver =>
      simp only [relayStep] at h
      split at h <;> cases h
      exact .deliver ‹_› ‹_›

/-- The phase of a relay in front of a component that serves the device. -/
inductive RelayPhase (R : σ → Phase γ α β → Prop) (s : Relayed σ α β) : Phase γ α β → Prop
  | waking {g : γ} {b : β} : s.relay = .waking → s.requests = [] → s.answers = [] →
      R s.inner (.answered g b) → RelayPhase R s (.idle g)
  | wakingAsked {g : γ} {a : α} {b : β} : s.relay = .waking → s.requests = [a] →
      s.answers = [] → R s.inner (.answered g b) → RelayPhase R s (.asked g a)
  | idle {g : γ} : s.relay = .receiving → s.requests = [] → s.answers = [] →
      R s.inner (.idle g) → RelayPhase R s (.idle g)
  | asked {g : γ} {a : α} : s.relay = .receiving → s.requests = [a] → s.answers = [] →
      R s.inner (.idle g) → RelayPhase R s (.asked g a)
  | passing {g : γ} {a : α} : s.relay = .passing a → s.requests = [] → s.answers = [] →
      R s.inner (.idle g) → RelayPhase R s (.asked g a)
  | waitingAsked {g : γ} {a : α} : s.relay = .waiting → s.requests = [] → s.answers = [] →
      R s.inner (.asked g a) → RelayPhase R s (.asked g a)
  | waitingAnswered {g : γ} {b : β} : s.relay = .waiting → s.requests = [] → s.answers = [] →
      R s.inner (.answered g b) → RelayPhase R s (.answered g b)
  | returning {g : γ} {b : β} : s.relay = .returning b → s.requests = [] → s.answers = [] →
      R s.inner (.idle g) → RelayPhase R s (.answered g b)
  | answered {g : γ} {b : β} : s.relay = .receiving → s.requests = [] → s.answers = [b] →
      R s.inner (.idle g) → RelayPhase R s (.answered g b)

section Relay

variable {c : Component σ ℓ α β} {device : γ → α → γ × β} {R : σ → Phase γ α β → Prop}
  {s s' : Relayed σ α β} {p : Phase γ α β} {g : γ}

theorem Serving.refl (device : γ → α → γ × β) (p : Phase γ α β) : Serving device p p := .inl rfl

theorem serving_asked (device : γ → α → γ × β) (g : γ) (a : α) :
    Serving device (.asked g a) (.answered (device g a).1 (device g a).2) :=
  .inr ⟨g, a, rfl, rfl⟩

/-- A component that has answered stays where it is until the answer is read. -/
theorem Serves.step_answered (h : Serves c device R) {t t' : σ} {l : ℓ} {g : γ} {b : β}
    (ht : R t (.answered g b)) (hstep : c.step t l = some t') : R t' (.answered g b) := by
  obtain ⟨p', rfl | ⟨_, _, hp, _⟩, hR⟩ := h.step ht hstep
  · exact hR
  · cases hp

theorem Serves.step_idle (h : Serves c device R) {t t' : σ} {l : ℓ} {g : γ}
    (ht : R t (.idle g)) (hstep : c.step t l = some t') : R t' (.idle g) := by
  obtain ⟨p', rfl | ⟨_, _, hp, _⟩, hR⟩ := h.step ht hstep
  · exact hR
  · cases hp

theorem Serves.step_asked (h : Serves c device R) {t t' : σ} {l : ℓ} {g : γ} {a : α}
    (ht : R t (.asked g a)) (hstep : c.step t l = some t') :
    R t' (.asked g a) ∨ R t' (.answered (device g a).1 (device g a).2) := by
  obtain ⟨p', rfl | ⟨_, _, hp, rfl⟩, hR⟩ := h.step ht hstep
  · exact .inl hR
  · cases hp
    exact .inr hR

theorem Serves.relayPhase_inner (h : Serves c device R) (hs : RelayPhase R s p) {l : ℓ}
    {inner : σ} (hstep : c.step s.inner l = some inner) :
    ∃ p', Serving device p p' ∧ RelayPhase R { s with inner } p' := by
  cases hs with
  | waking hrelay hreq hans hR =>
      exact ⟨_, .refl _ _, .waking hrelay hreq hans (h.step_answered hR hstep)⟩
  | wakingAsked hrelay hreq hans hR =>
      exact ⟨_, .refl _ _, .wakingAsked hrelay hreq hans (h.step_answered hR hstep)⟩
  | idle hrelay hreq hans hR =>
      exact ⟨_, .refl _ _, .idle hrelay hreq hans (h.step_idle hR hstep)⟩
  | asked hrelay hreq hans hR =>
      exact ⟨_, .refl _ _, .asked hrelay hreq hans (h.step_idle hR hstep)⟩
  | passing hrelay hreq hans hR =>
      exact ⟨_, .refl _ _, .passing hrelay hreq hans (h.step_idle hR hstep)⟩
  | waitingAsked hrelay hreq hans hR =>
      rcases h.step_asked hR hstep with hR | hR
      · exact ⟨_, .refl _ _, .waitingAsked hrelay hreq hans hR⟩
      · exact ⟨_, serving_asked _ _ _, .waitingAnswered hrelay hreq hans hR⟩
  | waitingAnswered hrelay hreq hans hR =>
      exact ⟨_, .refl _ _, .waitingAnswered hrelay hreq hans (h.step_answered hR hstep)⟩
  | returning hrelay hreq hans hR =>
      exact ⟨_, .refl _ _, .returning hrelay hreq hans (h.step_idle hR hstep)⟩
  | answered hrelay hreq hans hR =>
      exact ⟨_, .refl _ _, .answered hrelay hreq hans (h.step_idle hR hstep)⟩

theorem RelayPhase.stop (hs : RelayPhase R s p) : RelayPhase R { s with running := false } p := by
  cases hs with
  | waking hrelay hreq hans hR => exact .waking hrelay hreq hans hR
  | wakingAsked hrelay hreq hans hR => exact .wakingAsked hrelay hreq hans hR
  | idle hrelay hreq hans hR => exact .idle hrelay hreq hans hR
  | asked hrelay hreq hans hR => exact .asked hrelay hreq hans hR
  | passing hrelay hreq hans hR => exact .passing hrelay hreq hans hR
  | waitingAsked hrelay hreq hans hR => exact .waitingAsked hrelay hreq hans hR
  | waitingAnswered hrelay hreq hans hR => exact .waitingAnswered hrelay hreq hans hR
  | returning hrelay hreq hans hR => exact .returning hrelay hreq hans hR
  | answered hrelay hreq hans hR => exact .answered hrelay hreq hans hR

theorem RelayPhase.ask (hs : RelayPhase R s (.idle g)) (a : α) :
    RelayPhase R { s with requests := s.requests ++ [a] } (.asked g a) := by
  cases hs with
  | waking hrelay hreq hans hR => exact .wakingAsked hrelay (by simp [hreq]) hans hR
  | idle hrelay hreq hans hR => exact .asked hrelay (by simp [hreq]) hans hR

/-- A party in front of a component serves the same device. -/
theorem Serves.relayed (h : Serves c device R) :
    Serves (relayed c) device (RelayPhase R) where
  ask hs a := hs.ask a
  step := by
    intro s s' p l hs hstep
    cases relayMove_of_step hstep with
    | inner hinner => exact h.relayPhase_inner hs hinner
    | fail => exact ⟨p, .refl _ _, hs.stop⟩
    | wake _ hwaking hanswer =>
        cases hs with
        | waking _ hreq hans hR =>
            obtain ⟨g, hp, hidle⟩ := h.answer hR hanswer
            cases hp
            exact ⟨_, .refl _ _, .idle rfl hreq hans hidle⟩
        | wakingAsked _ hreq hans hR =>
            obtain ⟨g, hp, hidle⟩ := h.answer hR hanswer
            cases hp
            exact ⟨_, .refl _ _, .asked rfl hreq hans hidle⟩
        | _ => simp_all
    | receive _ hreceiving hrequests =>
        cases hs with
        | asked _ hreq hans hR =>
            rw [hreq] at hrequests
            cases hrequests
            exact ⟨_, .refl _ _, .passing rfl rfl hans hR⟩
        | _ => simp_all
    | pass _ hpassing =>
        cases hs with
        | passing hrelay hreq hans hR =>
            rw [hrelay] at hpassing
            cases hpassing
            exact ⟨_, .refl _ _, .waitingAsked rfl hreq hans (h.ask hR _)⟩
        | _ => simp_all
    | collect _ hwaiting hanswer =>
        cases hs with
        | waitingAsked _ _ _ hR =>
            obtain ⟨_, hp, _⟩ := h.answer hR hanswer
            cases hp
        | waitingAnswered _ hreq hans hR =>
            obtain ⟨g, hp, hidle⟩ := h.answer hR hanswer
            cases hp
            exact ⟨_, .refl _ _, .returning rfl hreq hans hidle⟩
        | _ => simp_all
    | deliver _ hreturning =>
        cases hs with
        | returning hrelay hreq hans hR =>
            rw [hrelay] at hreturning
            cases hreturning
            exact ⟨_, .refl _ _, .answered rfl hreq (by simp [hans]) hR⟩
        | _ => simp_all
  answer := by
    intro s s' p b hs hanswer
    simp only [GbPlay.Library.Relays.relayed] at hanswer
    split at hanswer <;> cases hanswer
    rename_i hanswers
    cases hs with
    | answered hrelay hreq hans hR =>
        rw [hans] at hanswers
        cases hanswers
        exact ⟨_, rfl, .idle hrelay hreq rfl hR⟩
    | _ => simp_all

/-- The state of the device in a phase. -/
def Phase.state : Phase γ α β → γ
  | .idle g => g
  | .asked g _ => g
  | .answered g _ => g

/-- The component behind a relay is in a phase with the same state of the device. -/
theorem RelayPhase.inner (h : RelayPhase R s p) : ∃ p', R s.inner p' ∧ p'.state = p.state := by
  cases h with
  | waking _ _ _ hR => exact ⟨_, hR, rfl⟩
  | wakingAsked _ _ _ hR => exact ⟨_, hR, rfl⟩
  | idle _ _ _ hR => exact ⟨_, hR, rfl⟩
  | asked _ _ _ hR => exact ⟨_, hR, rfl⟩
  | passing _ _ _ hR => exact ⟨_, hR, rfl⟩
  | waitingAsked _ _ _ hR => exact ⟨_, hR, rfl⟩
  | waitingAnswered _ _ _ hR => exact ⟨_, hR, rfl⟩
  | returning _ _ _ hR => exact ⟨_, hR, rfl⟩
  | answered _ _ _ hR => exact ⟨_, hR, rfl⟩

/-! ## How soon a relay answers -/

/-- What the relay still has to do for a request, with `n` steps of its component. -/
def Relay.rank (n : Nat) : Relay α β → Nat
  | .waking => 1
  | .receiving => 0
  | .passing _ => n + 3
  | .waiting => 2
  | .returning _ => 1

def Relayed.Alive (alive : σ → Prop) (s : Relayed σ α β) : Prop :=
  s.running = true ∧ alive s.inner

instance {alive : σ → Prop} [DecidablePred alive] :
    DecidablePred (Relayed.Alive (α := α) (β := β) alive) :=
  fun _ => inferInstanceAs (Decidable (_ ∧ _))

def Relayed.rank (rank : σ → Nat) (n : Nat) (s : Relayed σ α β) : Nat :=
  rank s.inner + s.relay.rank n + s.requests.length * (n + 4)

/-- While a relay waits, the component behind it goes on or its answer is read. -/
theorem Responds.collects {alive : σ → Prop} {rank : σ → Nat} {n : Nat}
    (h : Responds c R alive rank n) (hrunning : s.running = true) (hinner : alive s.inner)
    (hrelay : s.relay = .waiting) (hR : R s.inner p) (hbusy : ∀ g, p ≠ .idle g) :
    ∃ l s', (relayed c).step s l = some s' ∧ s'.Alive alive := by
  rcases h.ready hR hinner hbusy with hanswer | ⟨l, t, hstep, ht⟩
  · obtain ⟨⟨b, t⟩, hanswer⟩ := Option.isSome_iff_exists.mp hanswer
    refine ⟨.collect, { s with relay := .returning b, inner := t }, ?_, hrunning,
      (h.answer hanswer).2.mpr hinner⟩
    simp [Library.Relays.relayed, relayStep, hrunning, hrelay, hanswer]
  · exact ⟨.inner l, { s with inner := t },
      by simp [Library.Relays.relayed, relayStep, hstep], hrunning, ht⟩

/-- A relay answers after four steps more than the component behind it. -/
theorem Responds.relayed {alive : σ → Prop} {rank : σ → Nat} {n : Nat}
    (h : Responds c R alive rank n) :
    Responds (relayed c) (RelayPhase R) (Relayed.Alive alive) (Relayed.rank rank n) (n + 4) where
  ask s a := by
    refine ⟨?_, Iff.rfl⟩
    simp only [Library.Relays.relayed, Relayed.rank, List.length_append, List.length_singleton]
    grind
  step := by
    intro s s' l hstep halive
    cases relayMove_of_step hstep with
    | inner hinner =>
        obtain ⟨hbefore, hrank⟩ := h.step hinner halive.2
        exact ⟨⟨halive.1, hbefore⟩, by simp only [Relayed.rank]; omega⟩
    | fail => cases halive.1
    | wake hrunning hrelay hanswer =>
        obtain ⟨hrank, hiff⟩ := h.answer hanswer
        refine ⟨⟨hrunning, hiff.mp halive.2⟩, ?_⟩
        simp only [Relayed.rank, hrelay, Relay.rank]
        omega
    | receive hrunning hrelay hrequests =>
        refine ⟨halive, ?_⟩
        simp only [Relayed.rank, hrelay, hrequests, Relay.rank, List.length_cons]
        grind
    | @pass a hrunning hrelay =>
        obtain ⟨hrank, hiff⟩ := h.ask s.inner a
        refine ⟨⟨hrunning, hiff.mp halive.2⟩, ?_⟩
        simp only [Relayed.rank, hrelay, Relay.rank]
        omega
    | collect hrunning hrelay hanswer =>
        obtain ⟨hrank, hiff⟩ := h.answer hanswer
        refine ⟨⟨hrunning, hiff.mp halive.2⟩, ?_⟩
        simp only [Relayed.rank, hrelay, Relay.rank]
        omega
    | deliver hrunning hrelay =>
        refine ⟨halive, ?_⟩
        simp only [Relayed.rank, hrelay, Relay.rank]
        omega
  answer := by
    intro s s' b hanswer
    simp only [Library.Relays.relayed] at hanswer
    split at hanswer <;> cases hanswer
    exact ⟨Nat.le_refl _, Iff.rfl⟩
  ready := by
    intro s p hs halive hbusy
    obtain ⟨hrunning, hinner⟩ := halive
    cases hs with
    | waking => exact absurd rfl (hbusy _)
    | idle => exact absurd rfl (hbusy _)
    | wakingAsked hrelay _ _ hR =>
        right
        rcases h.ready hR hinner (by simp) with hanswer | ⟨l, t, hstep, ht⟩
        · obtain ⟨⟨b, t⟩, hanswer⟩ := Option.isSome_iff_exists.mp hanswer
          refine ⟨.wake, { s with relay := .receiving, inner := t }, ?_, hrunning,
            (h.answer hanswer).2.mpr hinner⟩
          simp [Library.Relays.relayed, relayStep, hrunning, hrelay, hanswer]
        · exact ⟨.inner l, { s with inner := t },
            by simp [Library.Relays.relayed, relayStep, hstep], hrunning, ht⟩
    | @asked _ a hrelay hreq =>
        right
        refine ⟨.receive, { s with relay := .passing a, requests := [] }, ?_, hrunning, hinner⟩
        simp [Library.Relays.relayed, relayStep, hrunning, hrelay, hreq]
    | @passing _ a hrelay =>
        right
        refine ⟨.pass, { s with relay := .waiting, inner := c.ask s.inner a }, ?_, hrunning,
          (h.ask s.inner a).2.mpr hinner⟩
        simp [Library.Relays.relayed, relayStep, hrunning, hrelay]
    | waitingAsked hrelay _ _ hR => exact .inr (h.collects hrunning hinner hrelay hR (by simp))
    | waitingAnswered hrelay _ _ hR => exact .inr (h.collects hrunning hinner hrelay hR (by simp))
    | @returning _ b hrelay =>
        right
        refine ⟨.deliver, { s with relay := .receiving, answers := s.answers ++ [b] }, ?_,
          hrunning, hinner⟩
        simp [Library.Relays.relayed, relayStep, hrunning, hrelay]
    | answered _ _ hans =>
        left
        simp [Library.Relays.relayed, hans]

/-- What is left to do is bounded in every phase. -/
structure Bounded (R : σ → Phase γ α β → Prop) (rank : σ → Nat) (idle asked answered : Nat) :
    Prop where
  idle : ∀ {s g}, R s (.idle g) → rank s ≤ idle
  asked : ∀ {s g a}, R s (.asked g a) → rank s ≤ asked
  answered : ∀ {s g b}, R s (.answered g b) → rank s ≤ answered

theorem Bounded.relayed {rank : σ → Nat} {x y z : Nat} (h : Bounded R rank x y z) (n : Nat) :
    Bounded (RelayPhase R) (Relayed.rank rank n) (max x (z + 1))
      (max (max (z + 1) x + n + 4) (y + 2)) (max (z + 2) (x + 1)) where
  idle := by
    intro s g hs
    cases hs with
    | waking hrelay hreq _ hR =>
        have := h.answered hR
        simp only [Relayed.rank, hrelay, hreq, Relay.rank, List.length_nil]
        omega
    | idle hrelay hreq _ hR =>
        have := h.idle hR
        simp only [Relayed.rank, hrelay, hreq, Relay.rank, List.length_nil]
        omega
  asked := by
    intro s g a hs
    cases hs with
    | wakingAsked hrelay hreq _ hR =>
        have := h.answered hR
        simp only [Relayed.rank, hrelay, hreq, Relay.rank, List.length_singleton]
        omega
    | asked hrelay hreq _ hR =>
        have := h.idle hR
        simp only [Relayed.rank, hrelay, hreq, Relay.rank, List.length_singleton]
        omega
    | passing hrelay hreq _ hR =>
        have := h.idle hR
        simp only [Relayed.rank, hrelay, hreq, Relay.rank, List.length_nil]
        omega
    | waitingAsked hrelay hreq _ hR =>
        have := h.asked hR
        simp only [Relayed.rank, hrelay, hreq, Relay.rank, List.length_nil]
        omega
  answered := by
    intro s g b hs
    cases hs with
    | waitingAnswered hrelay hreq _ hR =>
        have := h.answered hR
        simp only [Relayed.rank, hrelay, hreq, Relay.rank, List.length_nil]
        omega
    | returning hrelay hreq _ hR =>
        have := h.idle hR
        simp only [Relayed.rank, hrelay, hreq, Relay.rank, List.length_nil]
        omega
    | answered hrelay hreq _ hR =>
        have := h.idle hR
        simp only [Relayed.rank, hrelay, hreq, Relay.rank, List.length_nil]
        omega

end Relay

end GbPlay.Library.Relays
