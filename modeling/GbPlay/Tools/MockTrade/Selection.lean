import GbPlay.Tools.MockTrade.Trader

/-!
# The Pokemon that the mock trader offers

It means to trade the first one always.  But the answer to the partner's selection is
its echo, and the selection is over as soon as the partner sends a zero.
-/

namespace GbPlay.Tools.MockTrade

open GbPlay.Library.Histories GbPlay.Library.Machines
open GbPlay.Server.Client (Byte)
open PokeTrader

def isSelection (b : Byte) : Bool := firstPokemonMagic ≤ b ∧ b ≤ lastPokemonMagic

def selecting (s : PokeTrader) : Bool :=
  s.tradeState = .waitingForTrade ∨ s.tradeState = .tradeInitiated

def beginsSelection (c : DataCall) : Bool :=
  c.before.tradeState ≠ .waitingForTrade ∧ c.after.tradeState = .waitingForTrade

def sendsFirst (c : DataCall) : Bool := selecting c.before ∧ c.output = firstPokemonMagic

def entersConfirmation (c : DataCall) : Bool :=
  c.before.tradeState ≠ .tradeConfirmation ∧ c.after.tradeState = .tradeConfirmation

/-- No other Pokemon is offered, and the first one has been before the trade is to be
confirmed. -/
def OffersFirst (c : DataCall) (past : List DataCall) : Prop :=
  (selecting c.before = true → isSelection c.output = true → c.output = firstPokemonMagic) ∧
    (entersConfirmation c = true → HappenedSince beginsSelection sendsFirst past)

instance (c : DataCall) (past : List DataCall) : Decidable (OffersFirst c past) :=
  inferInstanceAs (Decidable (_ ∧ _))

/-- The partner selects another Pokemon than the first of its own. -/
def selectsAnother (c : DataCall) : Bool :=
  c.before.tradeState = .waitingForTrade ∧
    c.input.any fun b => isSelection b && b ≠ firstPokemonMagic

/-- What a call does to the selection. -/
inductive Selects (c : DataCall) : Prop
  | elsewhere (hbefore : selecting c.before = false) (hafter : c.after.tradeState ≠ .tradeInitiated)
      (hconfirmation : entersConfirmation c = false)
  | waits (hbefore : c.before.tradeState = .waitingForTrade) (houtput : c.output = c.input.getD 0)
      (hselection : isSelection c.output = false) (hafter : c.after.tradeState ≠ .tradeInitiated)
      (hconfirmation : entersConfirmation c = false)
  | initiates (b : Byte) (hbefore : c.before.tradeState = .waitingForTrade)
      (hinput : c.input = some b) (hselection : isSelection b = true) (houtput : c.output = b)
      (hafter : c.after.tradeState = .tradeInitiated)
  | offers (hbefore : c.before.tradeState = .tradeInitiated)
      (houtput : c.output = firstPokemonMagic) (hafter : c.after.tradeState = .tradeInitiated)
  | commits (hbefore : c.before.tradeState = .tradeInitiated) (houtput : c.output = 0)
      (hafter : c.after.tradeState = .tradeConfirmation)

theorem selects_of_makes {c : DataCall} (h : Makes onClientData c) : Selects c := by
  obtain ⟨⟨state, counter, party, isMaster⟩, data, toSend, after⟩ := c
  cases state <;> simp only [Makes, onClientData] at h
  case waitingForTrade =>
    split at h
    · rename_i hclosed
      cases h
      subst hclosed
      exact .waits rfl rfl rfl (by simp) rfl
    · cases data with
      | none => cases h
      | some selected =>
          simp only at h
          split at h
          · rename_i hselection
            cases h
            exact .initiates selected rfl rfl (decide_eq_true hselection) rfl rfl
          · rename_i hselection
            cases h
            exact .waits rfl rfl (decide_eq_false hselection) (by simp) rfl
  case tradeInitiated =>
    split at h
    · cases h
      exact .offers rfl rfl rfl
    · rename_i hzero
      cases h
      obtain rfl := not_not.mp hzero
      exact .commits rfl rfl rfl
  all_goals (repeat' split at h) <;> cases h <;> exact .elsewhere rfl (by simp) rfl

variable {c : DataCall} {past : List DataCall}

theorem selectsAnother_iff : selectsAnother c = true ↔ c.before.tradeState = .waitingForTrade ∧
    ∃ b, c.input = some b ∧ isSelection b = true ∧ b ≠ firstPokemonMagic := by
  simp [selectsAnother, Option.any_eq_true]

/-- The partner's selection is echoed. -/
theorem echo_of_makes (h : Makes onClientData c)
    (hbefore : c.before.tradeState = .waitingForTrade) : c.output = c.input.getD 0 := by
  cases selects_of_makes h with
  | waits _ houtput => exact houtput
  | initiates b _ hinput _ houtput => rw [houtput, hinput, Option.getD_some]
  | elsewhere hnot => simp [selecting, hbefore] at hnot
  | offers hinitiated | commits hinitiated =>
      rw [hbefore] at hinitiated
      cases hinitiated

theorem not_offersFirst (h : Makes onClientData c) (hanother : selectsAnother c = true) :
    ¬ OffersFirst c past := by
  obtain ⟨hbefore, b, hinput, hselection, hother⟩ := selectsAnother_iff.mp hanother
  have houtput : c.output = b := by
    rw [echo_of_makes h hbefore, hinput, Option.getD_some]
  intro hoffers
  apply hother
  calc b = c.output := houtput.symm
    _ = firstPokemonMagic :=
      hoffers.1 (decide_eq_true (.inl hbefore)) (houtput ▸ hselection)

/-- The first Pokemon has been offered as soon as the trade is initiated. -/
def Offered (s : PokeTrader) (past : List DataCall) : Prop :=
  s.tradeState = .tradeInitiated → HappenedSince beginsSelection sendsFirst past

theorem offersFirst_step (h : Makes onClientData c) (hanother : selectsAnother c = false)
    (hoffered : Offered c.before past) : OffersFirst c past ∧ Offered c.after (c :: past) := by
  cases selects_of_makes h with
  | elsewhere hbefore hafter hconfirmation =>
      simp [OffersFirst, Offered, hbefore, hafter, hconfirmation]
  | waits hbefore houtput hselection hafter hconfirmation =>
      simp [OffersFirst, Offered, hselection, hafter, hconfirmation]
  | initiates b hbefore hinput hselection houtput hafter =>
      have hfirst : c.output = firstPokemonMagic := by
        rw [houtput]
        simpa [selectsAnother, hbefore, hinput, hselection] using hanother
      refine ⟨⟨fun _ _ => hfirst, ?_⟩, fun _ => ?_⟩
      · simp [entersConfirmation, hafter]
      · apply happenedSince_cons_self
        · simp [beginsSelection, hbefore]
        · simp [sendsFirst, selecting, hbefore, hfirst]
  | offers hbefore houtput hafter =>
      refine ⟨⟨fun _ _ => houtput, ?_⟩, fun _ => (hoffered hbefore).cons ?_⟩
      · simp [entersConfirmation, hafter]
      · simp [beginsSelection, hafter]
  | commits hbefore houtput hafter =>
      refine ⟨⟨fun _ hselection => ?_, fun _ => hoffered hbefore⟩, ?_⟩
      · rw [houtput] at hselection
        cases hselection
      · simp [Offered, hafter]

/-- It offers its first Pokemon if and only if the partner selects its own first one. -/
theorem offersFirst_iff (D : List Byte) (isMaster : Bool) (inputs : List (Option Byte)) :
    Always OffersFirst (run onClientData (start D isMaster) inputs).1.reverse ↔
      ∀ c ∈ (run onClientData (start D isMaster) inputs).1, selectsAnother c = false := by
  constructor
  · intro halways c hmem
    rw [Bool.eq_false_iff]
    intro hanother
    obtain ⟨past, hoffers⟩ := halways.of_mem (List.mem_reverse.mpr hmem)
    exact not_offersFirst (makes_of_mem hmem) hanother hoffers
  · intro hcalls
    refine always_calls (fun c past => offersFirst_step) ?_ hcalls
    intro hstart
    cases hstart

/-- The partner selects its first Pokemon, twice. -/
example : Always OffersFirst (run onClientData (start [7] false)
    [some 0x01, some 0x60, some 0xD4, some 0xFD, some 0, some 0xFD, some 0, some 0, some 0x60,
      some 0x60, some 0, some 0x62]).1.reverse := by
  decide

/-- The partner takes a block of this size and selects its fourth Pokemon. -/
def fourthSelected (size : Nat) : List (Option Byte) :=
  [some masterMagic, some connectedMagic, some selectTradeMagic, some terminatorMagic, some 0,
    some terminatorMagic] ++ (List.replicate size (some 0) ++ [some 0, some 0x63, some 0])

/-- The calls after the last byte of the party are calls of the whole run. -/
theorem mem_run_sending {D : List Byte} {isMaster : Bool} {inputs : List (Option Byte)}
    (n : Nat) {k : Nat} (hk : k + n = D.length)
    (h : c ∈ (run onClientData ⟨.sendingTrainerData, D.length, D, isMaster⟩ inputs).1) :
    c ∈ (run onClientData ⟨.sendingTrainerData, k, D, isMaster⟩
      (List.replicate n (some 0) ++ inputs)).1 := by
  induction n generalizing k with
  | zero =>
      rw [Nat.add_zero] at hk
      rwa [hk]
  | succ n ih =>
      have hlt : k < D.length := by omega
      have hcall : onClientData ⟨.sendingTrainerData, k, D, isMaster⟩ (some 0) =
          .ok (⟨.sendingTrainerData, k + 1, D, isMaster⟩, D[k]) := by
        simp only [onClientData, if_pos hlt, List.getElem?_eq_getElem hlt]
      rw [List.replicate_succ, List.cons_append, run_ok hcall]
      exact List.mem_cons_of_mem _ (ih (by omega))

theorem not_offersFirst_fourthSelected (D : List Byte) :
    ¬ Always OffersFirst
      (run onClientData (start D false) (fourthSelected D.length)).1.reverse := by
  let c : DataCall := ⟨⟨.waitingForTrade, 0, D, false⟩, some 0x63, 0x63,
    ⟨.tradeInitiated, 0, D, false⟩⟩
  have hmem : c ∈ (run onClientData (start D false) (fourthSelected D.length)).1 := by
    have hsent : onClientData ⟨.sendingTrainerData, D.length, D, false⟩ (some 0) =
        .ok (⟨.waitingForTrade, 0, D, false⟩, 0) := by
      simp only [onClientData, if_neg (Nat.lt_irrefl _), Option.getD_some]
    have hsending : c ∈ (run onClientData ⟨.sendingTrainerData, 0, D, false⟩
        (List.replicate D.length (some 0) ++ [some 0, some 0x63, some 0])).1 := by
      apply mem_run_sending D.length (Nat.zero_add _)
      rw [run_ok hsent]
      exact List.mem_cons_of_mem _ List.mem_cons_self
    change c ∈ _ :: _ :: _ :: _ :: _ :: _ :: (run onClientData _ _).1
    iterate 6 apply List.mem_cons_of_mem
    exact hsending
  intro halways
  obtain ⟨past, hoffers⟩ := halways.of_mem (List.mem_reverse.mpr hmem)
  exact not_offersFirst (makes_of_mem hmem) rfl hoffers

theorem offers_fourth : ∃ s, create trainerData false = some s ∧
    ¬ Always OffersFirst (run onClientData s (fourthSelected 422)).1.reverse := by
  obtain ⟨D, hD, hlength⟩ : ∃ D, trainerData.serialize = some D ∧ D.length = 422 :=
    Option.map_eq_some_iff.mp (by decide +kernel)
  refine ⟨start D false, by rw [create, hD, Option.map_some], ?_⟩
  rw [← hlength]
  exact not_offersFirst_fourthSelected D

end GbPlay.Tools.MockTrade
