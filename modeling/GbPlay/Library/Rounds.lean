import Mathlib.Data.List.Basic
import Mathlib.Data.Set.Basic
import Mathlib.Logic.Relation
import Mathlib.Tactic.Common

/-!
# Rounds of a group

A coordinator starts a round for all members of a group, waits until each of
them has completed its part and then starts the next one.  A member acts any
number of times in a round.  Once a member has failed no round is started any
more, while the others go on with their part.  A group that has been dissolved
has no members left for the rounds to come.

`lockstep`: no member acts in a round before every member has completed every
earlier round.
-/

namespace GbPlay.Library.Rounds

variable {P X : Type*}

inductive Event (P X : Type*)
  | begun (round : Nat) (members : List P)
  | acted (round : Nat) (p : P) (x : X)
  | completed (round : Nat) (p : P)
  | failed (round : Nat) (p : P)

def Event.round : Event P X → Nat
  | .begun n _ | .acted n _ _ | .completed n _ | .failed n _ => n

/-- `rounds` have been started; `working` are the members whose part of the last
one is not complete. -/
@[ext]
structure Group (P X : Type*) where
  joined : List P := []
  dissolved : Bool := false
  rounds : Nat := 0
  working : Set P := ∅
  failed : Bool := false
  log : List (Event P X) := []

def Group.members (g : Group P X) : List P := if g.dissolved then [] else g.joined

inductive Step (g : Group P X) : Group P X → Prop
  | join (p : P) : g.rounds = 0 → Step g { g with joined := g.joined ++ [p] }
  | dissolve : Step g { g with dissolved := true }
  | start : g.failed = false → g.working = ∅ →
      Step g { g with
        rounds := g.rounds + 1
        working := {p | p ∈ g.members}
        log := g.log ++ [.begun g.rounds g.members] }
  | act {n : Nat} {p : P} {x : X} : p ∈ g.working → n + 1 = g.rounds →
      Step g { g with log := g.log ++ [.acted n p x] }
  | complete {n : Nat} {p : P} : n + 1 = g.rounds →
      Step g { g with working := g.working \ {p}, log := g.log ++ [.completed n p] }
  | fail {n : Nat} {p : P} {rest : Set P} : n + 1 = g.rounds → rest ⊆ g.working →
      Step g { g with working := rest, failed := true, log := g.log ++ [.failed n p] }
  /-- The coordinator gives up for a reason of its own. -/
  | stop : Step g { g with failed := true }

abbrev Steps : Group P X → Group P X → Prop := Relation.ReflTransGen Step

/-- Every member has completed round `n`, which all of them took part in. -/
def Completed (log : List (Event P X)) (joined : List P) (n : Nat) : Prop :=
  .begun n joined ∈ log ∧ ∀ p ∈ joined, .completed n p ∈ log

theorem Completed.append {log : List (Event P X)} {joined : List P} {n : Nat}
    (h : Completed log joined n) (events : List (Event P X)) :
    Completed (log ++ events) joined n :=
  ⟨List.mem_append_left _ h.1, fun p hp => List.mem_append_left _ (h.2 p hp)⟩

structure Inv (g : Group P X) : Prop where
  round_lt : ∀ e ∈ g.log, e.round < g.rounds
  working_joined : ∀ p ∈ g.working, p ∈ g.joined
  working_begun : g.working.Nonempty →
    ∀ n, n + 1 = g.rounds → .begun n g.joined ∈ g.log
  working_completed : g.working.Nonempty →
    ∀ n, n + 1 < g.rounds → Completed g.log g.joined n
  begun : g.failed = false → g.dissolved = false →
    ∀ n < g.rounds, .begun n g.joined ∈ g.log
  completed : g.failed = false → g.dissolved = false →
    ∀ n < g.rounds, ∀ p ∈ g.joined, (n + 1 = g.rounds ∧ p ∈ g.working) ∨ .completed n p ∈ g.log
  failed : ∀ n p, .failed n p ∈ g.log → g.failed = true ∧ n + 1 = g.rounds
  lockstep : ∀ pre post n p x, g.log = pre ++ .acted n p x :: post →
    p ∈ g.joined ∧ .begun n g.joined ∈ pre ∧ ∀ m < n, Completed pre g.joined m

theorem inv_init : Inv ({} : Group P X) := by
  constructor <;> simp

/-- Splitting an extended log at an element of its old part or at the new one. -/
theorem append_singleton_eq_append_cons {α : Type*} {l pre post : List α} {e e' : α}
    (h : l ++ [e'] = pre ++ e :: post) :
    (pre = l ∧ e = e') ∨ ∃ post', post = post' ++ [e'] ∧ l = pre ++ e :: post' := by
  rcases List.eq_nil_or_concat post with rfl | ⟨post', e'', rfl⟩
  · obtain ⟨hl, he⟩ := List.append_inj' h rfl
    left
    exact ⟨hl.symm, by simpa using he.symm⟩
  · right
    have hassoc : l ++ [e'] = (pre ++ e :: post') ++ [e''] := by simpa using h
    obtain ⟨hl, he⟩ := List.append_inj' hassoc rfl
    obtain rfl : e' = e'' := by simpa using he
    exact ⟨post', by simp, hl⟩

section Preservation

variable {g : Group P X}

theorem round_lt_append (h : Inv g) {n : Nat} (hn : n + 1 = g.rounds) {e : Event P X}
    (he : e.round = n) : ∀ e' ∈ g.log ++ [e], e'.round < g.rounds := by
  intro e' he'
  rcases List.mem_append.mp he' with hold | hnew
  · exact h.round_lt e' hold
  · obtain rfl := List.mem_singleton.mp hnew
    omega

/-- An event other than `acted` keeps the log in lock-step. -/
theorem lockstep_append (h : Inv g) {e : Event P X} (he : ∀ n p x, e ≠ .acted n p x)
    (pre post : List (Event P X)) (n : Nat) (p : P) (x : X)
    (hlog : g.log ++ [e] = pre ++ .acted n p x :: post) :
    p ∈ g.joined ∧ .begun n g.joined ∈ pre ∧ ∀ m < n, Completed pre g.joined m := by
  rcases append_singleton_eq_append_cons hlog with ⟨_, heq⟩ | ⟨post', _, hold⟩
  · exact absurd heq.symm (he n p x)
  · exact h.lockstep pre post' n p x hold

theorem inv_start (h : Inv g) (hfailed : g.failed = false) (hworking : g.working = ∅) :
    Inv { g with
      rounds := g.rounds + 1
      working := {p | p ∈ g.members}
      log := g.log ++ [.begun g.rounds g.members] } := by
  have hlive : ∀ p ∈ g.members, g.dissolved = false ∧ g.members = g.joined := by
    unfold Group.members
    cases g.dissolved <;> simp
  have hall : g.dissolved = false → ∀ n < g.rounds, Completed g.log g.joined n := by
    intro hd n hn
    refine ⟨h.begun hfailed hd n hn, fun p hp => ?_⟩
    rcases h.completed hfailed hd n hn p hp with ⟨_, hmem⟩ | hdone
    · simp [hworking] at hmem
    · exact hdone
  constructor
  case round_lt =>
      intro e he
      rcases List.mem_append.mp he with he | he
      · exact Nat.lt_succ_of_lt (h.round_lt e he)
      · obtain rfl := List.mem_singleton.mp he
        exact Nat.lt_succ_self _
  case working_joined =>
      intro p hp
      have hmem : p ∈ g.members := hp
      exact (hlive p hmem).2 ▸ hmem
  case working_begun =>
      rintro ⟨p, hp⟩ n hn
      obtain ⟨_, heq⟩ := hlive p hp
      obtain rfl : n = g.rounds := by simpa using hn
      simp [heq]
  case working_completed =>
      rintro ⟨p, hp⟩ n hn
      exact (hall (hlive p hp).1 n (by simpa using hn)).append _
  case begun =>
      intro _ hd n hn
      rcases Nat.lt_succ_iff_lt_or_eq.mp hn with hlt | rfl
      · exact List.mem_append_left _ (hall hd n hlt).1
      · have hd' : g.dissolved = false := hd
        simp [Group.members, hd']
  case completed =>
      intro _ hd n hn p hp
      rcases Nat.lt_succ_iff_lt_or_eq.mp hn with hlt | rfl
      · exact .inr (List.mem_append_left _ ((hall hd n hlt).2 p hp))
      · have hd' : g.dissolved = false := hd
        exact .inl ⟨rfl, by simpa [Group.members, hd'] using hp⟩
  case failed =>
      intro n p hmem
      have hold : .failed n p ∈ g.log := by simpa using hmem
      exact absurd (h.failed n p hold).1 (by simp [hfailed])
  case lockstep => exact lockstep_append h (by simp)

theorem inv_act (h : Inv g) {n : Nat} {p : P} (x : X) (hp : p ∈ g.working)
    (hn : n + 1 = g.rounds) : Inv { g with log := g.log ++ [.acted n p x] } := by
  have hne : g.working.Nonempty := ⟨p, hp⟩
  constructor
  case round_lt => exact round_lt_append h hn rfl
  case working_joined => exact h.working_joined
  case working_begun => exact fun hne m hm => List.mem_append_left _ (h.working_begun hne m hm)
  case working_completed => exact fun hne m hm => (h.working_completed hne m hm).append _
  case begun => exact fun hf hd m hm => List.mem_append_left _ (h.begun hf hd m hm)
  case completed =>
      exact fun hf hd m hm q hq => (h.completed hf hd m hm q hq).imp_right (List.mem_append_left _)
  case failed =>
      intro m q hmem
      exact h.failed m q (by simpa using hmem)
  case lockstep =>
      intro pre post m q y hlog
      rcases append_singleton_eq_append_cons hlog with ⟨rfl, heq⟩ | ⟨post', _, hold⟩
      · obtain ⟨rfl, rfl, rfl⟩ := Event.acted.inj heq
        refine ⟨h.working_joined _ hp, h.working_begun hne _ hn, fun k hk => ?_⟩
        exact h.working_completed hne k (by omega)
      · exact h.lockstep pre post' m q y hold

theorem inv_complete (h : Inv g) {n : Nat} (p : P) (hn : n + 1 = g.rounds) :
    Inv { g with working := g.working \ {p}, log := g.log ++ [.completed n p] } := by
  constructor
  case round_lt => exact round_lt_append h hn rfl
  case working_joined => exact fun q hq => h.working_joined q hq.1
  case working_begun =>
      rintro ⟨q, hq⟩ m hm
      exact List.mem_append_left _ (h.working_begun ⟨q, hq.1⟩ m hm)
  case working_completed =>
      rintro ⟨q, hq⟩ m hm
      exact (h.working_completed ⟨q, hq.1⟩ m hm).append _
  case begun => exact fun hf hd m hm => List.mem_append_left _ (h.begun hf hd m hm)
  case completed =>
      intro hf hd m hm q hq
      rcases h.completed hf hd m hm q hq with ⟨hm', hw⟩ | hdone
      · by_cases heq : q = p
        · obtain rfl : m = n := Nat.succ.inj (hm'.trans hn.symm)
          right
          simp [heq]
        · exact .inl ⟨hm', hw, heq⟩
      · exact .inr (List.mem_append_left _ hdone)
  case failed =>
      intro m q hmem
      exact h.failed m q (by simpa using hmem)
  case lockstep => exact lockstep_append h (by simp)

theorem inv_fail (h : Inv g) {n : Nat} {p : P} {rest : Set P} (hn : n + 1 = g.rounds)
    (hrest : rest ⊆ g.working) :
    Inv { g with working := rest, failed := true, log := g.log ++ [.failed n p] } := by
  constructor
  case round_lt => exact round_lt_append h hn rfl
  case working_joined => exact fun q hq => h.working_joined q (hrest hq)
  case working_begun =>
      exact fun hr m hm => List.mem_append_left _ (h.working_begun (hr.mono hrest) m hm)
  case working_completed =>
      exact fun hr m hm => (h.working_completed (hr.mono hrest) m hm).append _
  case begun => simp
  case completed => simp
  case failed =>
      intro m q hmem
      rcases List.mem_append.mp hmem with hmem | hmem
      · exact ⟨rfl, (h.failed m q hmem).2⟩
      · obtain ⟨rfl, rfl⟩ : m = n ∧ q = p := by simpa using hmem
        exact ⟨rfl, hn⟩
  case lockstep => exact lockstep_append h (by simp)

theorem inv_join (h : Inv g) (p : P) (hrounds : g.rounds = 0) :
    Inv { g with joined := g.joined ++ [p] } := by
  have hnone : ∀ e, e ∉ g.log := by
    intro e he
    have := h.round_lt e he
    omega
  constructor
  case round_lt => exact h.round_lt
  case working_joined => exact fun q hq => List.mem_append_left _ (h.working_joined q hq)
  case failed => exact h.failed
  case lockstep =>
      intro pre post n q x hlog
      exact absurd (hlog ▸ List.mem_append_right _ List.mem_cons_self) (hnone (.acted n q x))
  all_goals
    intros
    simp_all

theorem inv_step {g' : Group P X} (h : Inv g) (hstep : Step g g') : Inv g' := by
  cases hstep with
  | join p hrounds => exact inv_join h p hrounds
  | dissolve => exact { h with begun := by simp, completed := by simp }
  | start hfailed hworking => exact inv_start h hfailed hworking
  | act hp hn => exact inv_act h _ hp hn
  | complete hn => exact inv_complete h _ hn
  | fail hn hrest => exact inv_fail h hn hrest
  | stop =>
      exact { h with
        begun := by simp
        completed := by simp
        failed := fun n p hmem => ⟨rfl, (h.failed n p hmem).2⟩ }

end Preservation

theorem inv_steps {g g' : Group P X} (h : Inv g) (hsteps : Steps g g') : Inv g' := by
  induction hsteps with
  | refl => exact h
  | tail _ hstep ih => exact inv_step ih hstep

/-- After a member has failed in a round nobody acts in a later one. -/
theorem Inv.round_le_of_failed {g : Group P X} (h : Inv g) {m n : Nat} {p q : P} {x : X}
    (hfailed : .failed m p ∈ g.log) (hacted : .acted n q x ∈ g.log) : n ≤ m := by
  have hround := (h.failed m p hfailed).2
  have hlt := h.round_lt _ hacted
  simp only [Event.round] at hlt
  omega

end GbPlay.Library.Rounds
