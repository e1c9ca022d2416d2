import Mathlib.Data.List.Induction
import Mathlib.Data.List.TakeWhile
import Mathlib.Tactic.Common

/-!
# Histories

What a system has done, newest first.  A property of a history says of each
action what must have happened before it.  `Along` is for histories that are
written oldest first.
-/

namespace GbPlay.Library.Histories

variable {α : Type*} {p q : α → Bool} {P Q : α → List α → Prop} {a b : α} {past : List α}

/-- What happened since the last action in `p`. -/
def since (p : α → Bool) (past : List α) : List α :=
  past.takeWhile fun a => !p a

/-- What had happened when the last action in `p` was performed. -/
def before (p : α → Bool) (past : List α) : List α :=
  (past.dropWhile fun a => !p a).tail

/-- Every action meets `P`, given what happened before it. -/
def Always (P : α → List α → Prop) : List α → Prop
  | [] => True
  | a :: past => P a past ∧ Always P past

instance decidableAlways [∀ a past, Decidable (P a past)] : ∀ past, Decidable (Always P past)
  | [] => .isTrue trivial
  | _ :: past =>
      have := decidableAlways past
      inferInstanceAs (Decidable (_ ∧ _))

/-- An action in `q` has happened since the last one in `p`. -/
def HappenedSince (p q : α → Bool) (past : List α) : Prop :=
  ∃ a ∈ since p past, q a = true

instance (p q : α → Bool) (past : List α) : Decidable (HappenedSince p q past) :=
  inferInstanceAs (Decidable (∃ a ∈ since p past, q a = true))

@[simp] theorem not_happenedSince_nil : ¬ HappenedSince p q [] := by
  simp [HappenedSince, since]

theorem since_cons_of_pos (h : p a = true) : since p (a :: past) = [] := by
  simp [since, h]

theorem since_cons_of_neg (h : p a = false) : since p (a :: past) = a :: since p past := by
  simp [since, h]

theorem mem_since_cons_self (h : p a = false) : a ∈ since p (a :: past) := by
  rw [since_cons_of_neg h]
  exact List.mem_cons_self

/-- Another action is no news since the last one in `p`. -/
theorem mem_since_cons_of_ne (h : p a = false) (hne : b ≠ a) :
    b ∈ since p (a :: past) ↔ b ∈ since p past := by
  simp [since_cons_of_neg h, hne]

theorem mem_since_append {actions : List α} (hactions : ∀ a ∈ actions, p a = false)
    (hb : b ∉ actions) : b ∈ since p (actions ++ past) ↔ b ∈ since p past := by
  induction actions with
  | nil => exact Iff.rfl
  | cons a actions ih =>
      rw [List.mem_cons, not_or] at hb
      calc b ∈ since p (a :: actions ++ past)
          ↔ b ∈ since p (actions ++ past) :=
            mem_since_cons_of_ne (hactions a List.mem_cons_self) hb.1
        _ ↔ b ∈ since p past := ih (fun c hc => hactions c (List.mem_cons_of_mem a hc)) hb.2

theorem before_cons_of_pos (h : p a = true) : before p (a :: past) = past := by
  simp [before, h]

theorem before_append {actions : List α} (hactions : ∀ a ∈ actions, p a = false) :
    before p (actions ++ past) = before p past := by
  induction actions with
  | nil => rfl
  | cons a actions ih =>
      have ha : p a = false := hactions a List.mem_cons_self
      rw [← ih fun b hb => hactions b (List.mem_cons_of_mem a hb)]
      simp [before, ha]

theorem not_happenedSince_cons (h : p a = true) : ¬ HappenedSince p q (a :: past) := by
  simp [HappenedSince, since_cons_of_pos h]

theorem happenedSince_cons_self (hp : p a = false) (hq : q a = true) :
    HappenedSince p q (a :: past) :=
  ⟨a, mem_since_cons_self hp, hq⟩

theorem HappenedSince.cons (hp : p a = false) (h : HappenedSince p q past) :
    HappenedSince p q (a :: past) := by
  obtain ⟨b, hmem, hb⟩ := h
  refine ⟨b, ?_, hb⟩
  rw [since_cons_of_neg hp]
  exact List.mem_cons_of_mem a hmem

/-- What is neither in `p` nor in `q` is no news. -/
theorem HappenedSince.of_append {actions : List α}
    (hactions : ∀ a ∈ actions, p a = false ∧ q a = false)
    (h : HappenedSince p q (actions ++ past)) : HappenedSince p q past := by
  induction actions with
  | nil => exact h
  | cons a actions ih =>
      obtain ⟨hp, hq⟩ := hactions a List.mem_cons_self
      apply ih fun b hb => hactions b (List.mem_cons_of_mem a hb)
      obtain ⟨b, hmem, hb⟩ := h
      have hne : b ≠ a := by
        intro heq
        rw [heq, hq] at hb
        cases hb
      exact ⟨b, (mem_since_cons_of_ne hp hne).mp hmem, hb⟩

theorem Always.append {actions : List α} (hactions : ∀ a ∈ actions, ∀ past, P a past)
    (h : Always P past) : Always P (actions ++ past) := by
  induction actions with
  | nil => exact h
  | cons a actions ih =>
      exact ⟨hactions a List.mem_cons_self _, ih fun b hb => hactions b (List.mem_cons_of_mem a hb)⟩

theorem always_of_splits
    (h : ∀ later a earlier, past = later ++ a :: earlier → P a earlier) : Always P past := by
  induction past with
  | nil => trivial
  | cons b past ih =>
      refine ⟨h [] b past rfl, ih fun later a earlier heq => h (b :: later) a earlier ?_⟩
      rw [heq, List.cons_append]

theorem Always.of_mem (h : Always P past) (ha : a ∈ past) : ∃ earlier, P a earlier := by
  induction past with
  | nil => cases ha
  | cons b past ih =>
      rcases List.mem_cons.mp ha with rfl | ha
      · exact ⟨past, h.1⟩
      · exact ih h.2 ha

/-- Properties that agree on every action of a history hold of it together. -/
theorem Always.congr (h : Always (fun a past => P a past ↔ Q a past) past) :
    Always P past ↔ Always Q past := by
  induction past with
  | nil => exact Iff.rfl
  | cons a past ih => exact and_congr h.1 (ih h.2)

/-! ## Oldest first -/

/-- Every action meets `P`, given what happened before it. -/
def Along (P : List α → α → Prop) (log : List α) : Prop :=
  ∀ earlier a later, log = earlier ++ a :: later → P earlier a

section Along

variable {P : List α → α → Prop} {log actions : List α}

theorem along_nil : Along P [] := by
  intro earlier a later h
  simp at h

theorem along_concat : Along P (log ++ [a]) ↔ Along P log ∧ P log a := by
  constructor
  · intro h
    refine ⟨fun earlier b later heq => ?_, h log a [] rfl⟩
    apply h earlier b (later ++ [a])
    rw [heq, List.append_assoc, List.cons_append]
  · rintro ⟨hlog, ha⟩ earlier b later heq
    rcases List.eq_nil_or_concat later with rfl | ⟨later, c, rfl⟩
    · obtain ⟨rfl, hb⟩ := List.append_inj' heq rfl
      cases hb
      exact ha
    · have hsplit : log ++ [a] = (earlier ++ b :: later) ++ [c] := by
        rw [heq, List.concat_eq_append, List.append_assoc, List.cons_append]
      exact hlog earlier b later (List.append_inj' hsplit rfl).1

theorem Along.append (hlog : Along P log) (hactions : ∀ a ∈ actions, ∀ earlier, P earlier a) :
    Along P (log ++ actions) := by
  induction actions using List.reverseRecOn with
  | nil => rwa [List.append_nil]
  | append_singleton actions a ih =>
      rw [← List.append_assoc, along_concat]
      refine ⟨ih fun b hb => hactions b (List.mem_append_left _ hb), hactions a ?_ _⟩
      exact List.mem_append_right _ List.mem_cons_self

end Along

end GbPlay.Library.Histories
