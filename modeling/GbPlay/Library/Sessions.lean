import GbPlay.Library.Dialogue
import GbPlay.Library.Relays
import Mathlib.Logic.Function.Basic

/-!
# A program that talks to several devices

A program makes its requests one after the other, each of one of several devices,
and waits for the answer before it goes on.  It reaches every device through a
component that takes steps of its own, in any order with those of the others.

However the steps are interleaved, the exchanges are those of the program talking
to the devices themselves: `Sequential` says so of a state, and `sequential` of
every state that is reached.
-/

namespace GbPlay.Library.Sessions

open GbPlay.Library GbPlay.Library.Runs GbPlay.Library.Relays

variable {ι Q α β : Type*} {γ σ ℓ : ι → Type*}

/-! ## What the devices answer -/

section Devices

variable {γ : Type*} (device : γ → α → γ × β)

def after (g : γ) : List α → γ
  | [] => g
  | a :: as => after (device g a).1 as

def answers (g : γ) : List α → List β
  | [] => []
  | a :: as => (device g a).2 :: answers (device g a).1 as

variable {device}

theorem after_append (g : γ) (as bs : List α) :
    after device g (as ++ bs) = after device (after device g as) bs := by
  induction as generalizing g with
  | nil => rfl
  | cons a as ih => exact ih (device g a).1

theorem answers_append (g : γ) (as bs : List α) :
    answers device g (as ++ bs) = answers device g as ++ answers device (after device g as) bs := by
  induction as generalizing g with
  | nil => rfl
  | cons a as ih => exact congrArg (_ :: ·) (ih (device g a).1)

@[simp] theorem length_answers (g : γ) (as : List α) :
    (answers device g as).length = as.length := by
  induction as generalizing g with
  | nil => rfl
  | cons a as ih => simp [answers, ih]

end Devices

/-! ## Exchanges with several devices -/

section Exchanges

variable [DecidableEq ι] {i j : ι} {a : α} {b : β} {xs ys : List ((ι × α) × β)}

/-- What has been exchanged with the device `i`. -/
def talk (i : ι) (xs : List ((ι × α) × β)) : List (α × β) :=
  xs.filterMap fun x => if x.1.1 = i then some (x.1.2, x.2) else none

@[simp] theorem talk_nil (i : ι) : talk i ([] : List ((ι × α) × β)) = [] := rfl

@[simp] theorem talk_append (i : ι) (xs ys : List ((ι × α) × β)) :
    talk i (xs ++ ys) = talk i xs ++ talk i ys := List.filterMap_append

@[simp] theorem talk_single_self (i : ι) (a : α) (b : β) : talk i [((i, a), b)] = [(a, b)] := by
  simp [talk]

theorem talk_single_of_ne (h : j ≠ i) (a : α) (b : β) : talk i [((j, a), b)] = [] := by
  simp [talk, h]

/-- What the device `i` has been sent. -/
def sent (i : ι) (xs : List ((ι × α) × β)) : List α := (talk i xs).map Prod.fst

/-- What the device `i` has answered. -/
def got (i : ι) (xs : List ((ι × α) × β)) : List β := (talk i xs).map Prod.snd

@[simp] theorem sent_append (i : ι) (xs ys : List ((ι × α) × β)) :
    sent i (xs ++ ys) = sent i xs ++ sent i ys := by simp [sent]

@[simp] theorem got_append (i : ι) (xs ys : List ((ι × α) × β)) :
    got i (xs ++ ys) = got i xs ++ got i ys := by simp [got]

@[simp] theorem sent_single_self (i : ι) (a : α) (b : β) : sent i [((i, a), b)] = [a] := by
  simp [sent]

@[simp] theorem got_single_self (i : ι) (a : α) (b : β) : got i [((i, a), b)] = [b] := by
  simp [got]

theorem sent_single_of_ne (h : j ≠ i) (a : α) (b : β) : sent i [((j, a), b)] = [] := by
  simp [sent, talk_single_of_ne h]

theorem got_single_of_ne (h : j ≠ i) (a : α) (b : β) : got i [((j, a), b)] = [] := by
  simp [got, talk_single_of_ne h]

/-- Every device has answered as it does to what it has been sent. -/
def Genuine (device : ∀ i, γ i → α → γ i × β) (g₀ : ∀ i, γ i) (xs : List ((ι × α) × β)) : Prop :=
  ∀ i, got i xs = answers (device i) (g₀ i) (sent i xs)

/-- The state of the device `i` after the exchanges. -/
def deviceAfter (device : ∀ i, γ i → α → γ i × β) (g₀ : ∀ i, γ i) (xs : List ((ι × α) × β))
    (i : ι) : γ i :=
  after (device i) (g₀ i) (sent i xs)

variable {device : ∀ i, γ i → α → γ i × β} {g₀ : ∀ i, γ i}

theorem Genuine.snoc (h : Genuine device g₀ xs) (i : ι) (a : α) :
    Genuine device g₀ (xs ++ [((i, a), (device i (deviceAfter device g₀ xs i) a).2)]) := by
  intro j
  rw [got_append, sent_append, answers_append, h j]
  by_cases hij : i = j
  · subst hij
    rw [got_single_self, sent_single_self]
    rfl
  · rw [got_single_of_ne hij, sent_single_of_ne hij]
    rfl

theorem deviceAfter_snoc_self (i : ι) (a : α) (b : β) :
    deviceAfter device g₀ (xs ++ [((i, a), b)]) i =
      (device i (deviceAfter device g₀ xs i) a).1 := by
  rw [deviceAfter, sent_append, after_append, sent_single_self]
  rfl

theorem deviceAfter_snoc_of_ne (h : i ≠ j) (a : α) (b : β) :
    deviceAfter device g₀ (xs ++ [((i, a), b)]) j = deviceAfter device g₀ xs j := by
  rw [deviceAfter, sent_append, sent_single_of_ne h, List.append_nil, deviceAfter]

end Exchanges

/-! ## Sessions -/

structure Session (Q : Type*) (σ : ι → Type*) where
  program : Q
  /-- Whose answer the program waits for. -/
  waiting : Option ι := none
  running : Bool := true
  parts : ∀ i, σ i

inductive Label (ℓ : ι → Type*)
  | send
  | receive
  | fail
  | part (i : ι) (l : ℓ i)

def step [DecidableEq ι] (d : Dialogue Q (ι × α) β) (c : ∀ i, Component (σ i) (ℓ i) α β)
    (s : Session Q σ) : Label ℓ → Option (Session Q σ)
  | .send =>
      match s.running, s.waiting, d.next s.program with
      | true, none, some (i, a) => some { s with
          waiting := some i
          parts := Function.update s.parts i ((c i).ask (s.parts i) a) }
      | _, _, _ => none
  | .receive =>
      match s.running, s.waiting with
      | true, some i =>
          match (c i).answer (s.parts i) with
          | some (b, part) => some { s with
              program := d.reply s.program b
              waiting := none
              parts := Function.update s.parts i part }
          | none => none
      | _, _ => none
  | .fail => if s.running then some { s with running := false } else none
  | .part i l =>
      ((c i).step (s.parts i) l).map fun part => { s with parts := Function.update s.parts i part }

/-! ## Sessions are sequential -/

section Sequential

variable [DecidableEq ι] {d : Dialogue Q (ι × α) β} {c : ∀ i, Component (σ i) (ℓ i) α β}
  {device : ∀ i, γ i → α → γ i × β} {R : ∀ i, σ i → Phase (γ i) α β → Prop} {q₀ : Q}
  {g₀ g : ∀ i, γ i} {s s' : Session Q σ} {xs : List ((ι × α) × β)} {i : ι}

/-- The devices are in the states `g`, but for the request the program waits for. -/
inductive Stands (d : Dialogue Q (ι × α) β) (device : ∀ i, γ i → α → γ i × β)
    (R : ∀ i, σ i → Phase (γ i) α β → Prop) (g : ∀ i, γ i) (s : Session Q σ) : Prop
  | ready : s.waiting = none → (∀ i, R i (s.parts i) (.idle (g i))) → Stands d device R g s
  | asked {i : ι} {a : α} : s.waiting = some i → d.next s.program = some (i, a) →
      R i (s.parts i) (.asked (g i) a) → (∀ j, j ≠ i → R j (s.parts j) (.idle (g j))) →
      Stands d device R g s
  | answered {i : ι} {a : α} : s.waiting = some i → d.next s.program = some (i, a) →
      R i (s.parts i) (.answered (device i (g i) a).1 (device i (g i) a).2) →
      (∀ j, j ≠ i → R j (s.parts j) (.idle (g j))) → Stands d device R g s

structure Sequential (d : Dialogue Q (ι × α) β) (device : ∀ i, γ i → α → γ i × β)
    (R : ∀ i, σ i → Phase (γ i) α β → Prop) (q₀ : Q) (g₀ : ∀ i, γ i) (s : Session Q σ)
    (xs : List ((ι × α) × β)) : Prop where
  transcript : d.Transcript q₀ xs s.program
  genuine : Genuine device g₀ xs
  stands : Stands d device R (deviceAfter device g₀ xs) s

/-- Other components are left alone. -/
theorem idle_update {part : σ i} (h : ∀ j, j ≠ i → R j (s.parts j) (.idle (g j))) (j : ι)
    (hne : j ≠ i) : R j (Function.update s.parts i part j) (.idle (g j)) := by
  rw [Function.update_of_ne hne]
  exact h j hne

theorem Stands.send (hc : ∀ i, Serves (c i) (device i) (R i)) {a : α} (h : Stands d device R g s)
    (hwaiting : s.waiting = none) (hnext : d.next s.program = some (i, a)) :
    Stands d device R g { s with
      waiting := some i
      parts := Function.update s.parts i ((c i).ask (s.parts i) a) } := by
  cases h with
  | ready _ hidle =>
      refine .asked rfl hnext ?_ (idle_update fun j _ => hidle j)
      simp only [Function.update_self]
      exact (hc i).ask (hidle i) a
  | asked h => simp [hwaiting] at h
  | answered h => simp [hwaiting] at h

/-- A step of a component, whether or not the program waits for it. -/
theorem Stands.part (hc : ∀ i, Serves (c i) (device i) (R i)) {l : ℓ i} {part : σ i}
    (h : Stands d device R g s) (hstep : (c i).step (s.parts i) l = some part) :
    Stands d device R g { s with parts := Function.update s.parts i part } := by
  -- a component that is not waited for stays idle
  have hothers {k : ι} (hidle : ∀ j, j ≠ k → R j (s.parts j) (.idle (g j))) (j : ι)
      (hne : j ≠ k) : R j (Function.update s.parts i part j) (.idle (g j)) := by
    by_cases hij : j = i
    · subst hij
      rw [Function.update_self]
      exact (hc j).step_idle (hidle j hne) hstep
    · rw [Function.update_of_ne hij]
      exact hidle j hne
  cases h with
  | ready hwaiting hidle =>
      refine .ready hwaiting fun j => ?_
      by_cases hij : j = i
      · subst hij
        simp only [Function.update_self]
        exact (hc j).step_idle (hidle j) hstep
      · simp only [Function.update_of_ne hij]
        exact hidle j
  | @asked k a hwaiting hnext hR hidle =>
      by_cases hki : k = i
      · subst hki
        rcases (hc k).step_asked hR hstep with hR | hR
        · exact .asked hwaiting hnext (by simpa using hR) (idle_update hidle)
        · exact .answered hwaiting hnext (by simpa using hR) (idle_update hidle)
      · refine .asked hwaiting hnext ?_ (hothers hidle)
        simpa only [Function.update_of_ne hki] using hR
  | @answered k a hwaiting hnext hR hidle =>
      by_cases hki : k = i
      · subst hki
        have hR' := (hc k).step_answered hR hstep
        exact .answered hwaiting hnext (by simpa using hR') (idle_update hidle)
      · refine .answered hwaiting hnext ?_ (hothers hidle)
        simpa only [Function.update_of_ne hki] using hR

/-- The answer the program reads is the one of the device. -/
theorem Sequential.receive (hc : ∀ i, Serves (c i) (device i) (R i))
    (h : Sequential d device R q₀ g₀ s xs) {b : β} {part : σ i} (hwaiting : s.waiting = some i)
    (hanswer : (c i).answer (s.parts i) = some (b, part)) :
    ∃ a, Sequential d device R q₀ g₀ { s with
      program := d.reply s.program b
      waiting := none
      parts := Function.update s.parts i part } (xs ++ [((i, a), b)]) := by
  obtain ⟨htranscript, hgenuine, hstands⟩ := h
  cases hstands with
  | ready h => simp [hwaiting] at h
  | asked hi _ hR =>
      cases hwaiting.symm.trans hi
      obtain ⟨_, hp, _⟩ := (hc i).answer hR hanswer
      cases hp
  | @answered _ a hi hnext hR hidle =>
      cases hwaiting.symm.trans hi
      obtain ⟨g', hp, hpart⟩ := (hc i).answer hR hanswer
      injection hp with hg hb
      subst hg hb
      refine ⟨a, htranscript.snoc hnext, hgenuine.snoc i a, .ready rfl fun j => ?_⟩
      by_cases hij : j = i
      · subst hij
        simp only [Function.update_self, deviceAfter_snoc_self]
        exact hpart
      · simp only [Function.update_of_ne hij, deviceAfter_snoc_of_ne (Ne.symm hij)]
        exact hidle j hij

theorem Sequential.step (hc : ∀ i, Serves (c i) (device i) (R i))
    (h : Sequential d device R q₀ g₀ s xs) {l : Label ℓ}
    (hstep : Sessions.step d c s l = some s') :
    ∃ ys, Sequential d device R q₀ g₀ s' (xs ++ ys) := by
  have hsame : xs ++ [] = xs := List.append_nil xs
  cases l with
  | send =>
      simp only [Sessions.step] at hstep
      split at hstep <;> cases hstep
      rename_i hwaiting hnext
      refine ⟨[], ?_⟩
      rw [hsame]
      exact ⟨h.transcript, h.genuine, h.stands.send hc hwaiting hnext⟩
  | receive =>
      simp only [Sessions.step] at hstep
      split at hstep
      · rename_i hwaiting
        split at hstep <;> cases hstep
        obtain ⟨a, h'⟩ := h.receive hc hwaiting ‹_›
        exact ⟨_, h'⟩
      · cases hstep
  | fail =>
      simp only [Sessions.step] at hstep
      split at hstep <;> cases hstep
      refine ⟨[], ?_⟩
      rw [hsame]
      refine ⟨h.transcript, h.genuine, ?_⟩
      cases h.stands with
      | ready hwaiting hidle => exact .ready hwaiting hidle
      | asked hwaiting hnext hR hidle => exact .asked hwaiting hnext hR hidle
      | answered hwaiting hnext hR hidle => exact .answered hwaiting hnext hR hidle
  | part i l =>
      obtain ⟨part, hpart, rfl⟩ := Option.map_eq_some_iff.mp hstep
      refine ⟨[], ?_⟩
      rw [hsame]
      exact ⟨h.transcript, h.genuine, h.stands.part hc hpart⟩

/-- However the steps are interleaved, the program has talked to the devices. -/
theorem sequential (hc : ∀ i, Serves (c i) (device i) (R i)) {parts : ∀ i, σ i}
    (hinit : ∀ i, R i (parts i) (.idle (g₀ i)))
    (h : Reachable (Fires (Sessions.step d c)) { program := q₀, parts } s) :
    ∃ xs, Sequential d device R q₀ g₀ s xs := by
  refine h.invariant (I := fun t => ∃ xs, Sequential d device R q₀ g₀ t xs) ?_ ?_
  · exact ⟨[], .nil, fun i => rfl, .ready rfl hinit⟩
  rintro t l u ⟨xs, hseq⟩ hfire
  obtain ⟨ys, hseq'⟩ := hseq.step hc hfire
  exact ⟨xs ++ ys, hseq'⟩

/-! ## No session gets stuck -/

/-- The component that the program waits for answers, after at most so many of its
steps as `rank` allows, or it has failed. -/
theorem Sequential.progress {alive : σ i → Prop} {rank : σ i → Nat} {n : Nat}
    (hrespond : Responds (c i) (R i) alive rank n) (h : Sequential d device R q₀ g₀ s xs)
    (hrunning : s.running = true) (hwaiting : s.waiting = some i) (halive : alive (s.parts i)) :
    (∃ s', Sessions.step d c s .receive = some s') ∨
      ∃ l s', Sessions.step d c s (.part i l) = some s' ∧ alive (s'.parts i) ∧
        rank (s'.parts i) < rank (s.parts i) := by
  have hready : ((c i).answer (s.parts i)).isSome ∨
      ∃ l part, (c i).step (s.parts i) l = some part ∧ alive part := by
    cases h.stands with
    | ready h => simp [hwaiting] at h
    | asked hi _ hR =>
        cases hwaiting.symm.trans hi
        exact hrespond.ready hR halive (by simp)
    | answered hi _ hR =>
        cases hwaiting.symm.trans hi
        exact hrespond.ready hR halive (by simp)
  rcases hready with hanswer | ⟨l, part, hstep, hpart⟩
  · obtain ⟨⟨b, part⟩, hanswer⟩ := Option.isSome_iff_exists.mp hanswer
    left
    simp [Sessions.step, hrunning, hwaiting, hanswer]
  · right
    refine ⟨l, { s with parts := Function.update s.parts i part }, ?_, ?_, ?_⟩
    · simp [Sessions.step, hstep]
    · simpa using hpart
    · simpa using (hrespond.step hstep hpart).2

def Label.isPart (i : ι) : Label ℓ → Bool
  | .part j _ => j = i
  | _ => false

def Label.isReceive : Label ℓ → Bool
  | .receive => true
  | _ => false

theorem waits_of_run {ls : List (Label ℓ)} (h : Run (Fires (Sessions.step d c)) s ls s')
    (hwaiting : s.waiting = some i) (hreceive : ∀ l ∈ ls, l.isReceive = false) :
    s'.waiting = some i := by
  induction h with
  | nil => exact hwaiting
  | @snoc ls l t u hrun hstep ih =>
      have hwaits := ih fun l hl => hreceive l (List.mem_append_left _ hl)
      have hlast : l.isReceive = false := hreceive l (by simp)
      cases l with
      | receive => cases hlast
      | send =>
          simp only [Fires, Sessions.step] at hstep
          split at hstep <;> cases hstep
          rename_i hnone _
          rw [hnone] at hwaits
          cases hwaits
      | fail =>
          simp only [Fires, Sessions.step] at hstep
          split at hstep <;> cases hstep
          exact hwaits
      | part j l =>
          obtain ⟨part, hpart, rfl⟩ := Option.map_eq_some_iff.mp hstep
          exact hwaits

/-- While the program waits, every step of the component brings the answer nearer, whatever the
other components do. -/
theorem countP_part_le {alive : σ i → Prop} {rank : σ i → Nat} {n : Nat}
    (hrespond : Responds (c i) (R i) alive rank n) {ls : List (Label ℓ)}
    (h : Run (Fires (Sessions.step d c)) s ls s') (hwaiting : s.waiting = some i)
    (hreceive : ∀ l ∈ ls, l.isReceive = false) (halive : alive (s'.parts i)) :
    alive (s.parts i) ∧ ls.countP (Label.isPart i) + rank (s'.parts i) ≤ rank (s.parts i) := by
  induction h with
  | nil => exact ⟨halive, by simp⟩
  | @snoc ls l t u hrun hstep ih =>
      have hbefore : ∀ l ∈ ls, l.isReceive = false :=
        fun l hl => hreceive l (List.mem_append_left _ hl)
      have hlast : l.isReceive = false := hreceive l (by simp)
      have hwaits := waits_of_run hrun hwaiting hbefore
      rw [List.countP_append, List.countP_singleton]
      cases l with
      | receive => cases hlast
      | send =>
          simp only [Fires, Sessions.step] at hstep
          split at hstep <;> cases hstep
          rename_i hnone _
          rw [hnone] at hwaits
          cases hwaits
      | fail =>
          simp only [Fires, Sessions.step] at hstep
          split at hstep <;> cases hstep
          exact ih hbefore halive
      | part j l =>
          obtain ⟨part, hpart, rfl⟩ := Option.map_eq_some_iff.mp hstep
          by_cases hji : j = i
          · subst hji
            simp only [Function.update_self] at halive ⊢
            obtain ⟨hthen, hless⟩ := hrespond.step hpart halive
            obtain ⟨hstart, hle⟩ := ih hbefore hthen
            refine ⟨hstart, ?_⟩
            rw [if_pos (by simp [Label.isPart])]
            omega
          · simp only [Function.update_of_ne (Ne.symm hji)] at halive ⊢
            rw [if_neg (by simp [Label.isPart, hji])]
            exact ih hbefore halive

end Sequential

end GbPlay.Library.Sessions
