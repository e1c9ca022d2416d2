import GbPlay.Tools.MockTrade.Trader

/-!
# The mock trader sends its whole party

One counter is used for all the trades of a run.  It matters only while the party is
being sent: a trade is prepared, the party is sent from its first byte to its last,
and then the two sides trade until one trade is confirmed or the menu is closed.
-/

namespace GbPlay.Tools.MockTrade

open GbPlay.Library.Histories GbPlay.Library.Machines
open GbPlay.Server.Client (Byte)

/-! ## Phases -/

inductive Phase
  | preparing
  | sending (left : List Byte)
  | trading

def PokeTrader.phase (s : PokeTrader) : Phase :=
  match s.tradeState with
  | .notConnected | .waitingForLinkType | .selectedTrade | .waitingForRandomSeed
  | .sendingRandomSeed => .preparing
  | .sendingTrainerData => .sending (s.serializedTrainerData.drop s.transferCounter)
  | .waitingForTrade | .tradeInitiated | .tradeConfirmation | .tradeCancelled => .trading

def entersSending (c : DataCall) : Bool :=
  c.before.tradeState ≠ .sendingTrainerData ∧ c.after.tradeState = .sendingTrainerData

/-- No other state is visited. -/
def sendsParty (c : DataCall) : Bool :=
  c.before.tradeState = .sendingTrainerData ∧ c.after.tradeState = .sendingTrainerData

def confirmsTrade (c : DataCall) : Bool :=
  c.before.tradeState = .tradeConfirmation ∧ c.input = some PokeTrader.tradeConfirmedMagic

def closesMenu (c : DataCall) : Bool :=
  c.before.tradeState = .waitingForTrade ∧ c.input = some PokeTrader.tradeMenuClosedMagic

def endsTrade (c : DataCall) : Bool := confirmsTrade c || closesMenu c

/-- What a call does to the transmission of the party. -/
inductive Does (c : DataCall) : Prop
  | prepares (hends : endsTrade c = false) (henters : entersSending c = false)
      (hbefore : c.before.phase = .preparing) (hafter : c.after.phase = .preparing)
  | enters (hends : endsTrade c = false) (henters : entersSending c = true)
      (hbefore : c.before.phase = .preparing)
      (hafter : c.after.phase = .sending c.after.serializedTrainerData)
  | sends (hends : endsTrade c = false) (hsends : sendsParty c = true) (left : List Byte)
      (hbefore : c.before.phase = .sending (c.output :: left))
      (hafter : c.after.phase = .sending left)
  | finishes (hends : endsTrade c = false) (henters : entersSending c = false)
      (hbefore : c.before.phase = .sending []) (hafter : c.after.phase = .trading)
  | trades (hends : endsTrade c = false) (henters : entersSending c = false)
      (hbefore : c.before.phase = .trading) (hafter : c.after.phase = .trading)
  | ends (hends : endsTrade c = true) (hbefore : c.before.phase = .trading)
      (hafter : c.after.phase = .preparing)

theorem does_of_makes {c : DataCall} (h : Makes PokeTrader.onClientData c) : Does c := by
  obtain ⟨⟨state, counter, party, isMaster⟩, data, toSend, after⟩ := c
  cases state <;> simp only [Makes, PokeTrader.onClientData] at h
  case sendingTrainerData =>
    split at h
    · rename_i hcounter
      rw [List.getElem?_eq_getElem hcounter] at h
      cases h
      refine .sends rfl rfl (party.drop (counter + 1)) ?_ rfl
      exact congrArg Phase.sending (List.drop_eq_getElem_cons hcounter)
    · rename_i hcounter
      cases h
      refine .finishes rfl rfl ?_ rfl
      exact congrArg Phase.sending (List.drop_eq_nil_of_le (Nat.le_of_not_lt hcounter))
  case notConnected | waitingForLinkType | selectedTrade | waitingForRandomSeed =>
    (repeat' split at h) <;> cases h <;> exact .prepares rfl rfl rfl rfl
  case sendingRandomSeed =>
    split at h <;> cases h
    · exact .enters rfl rfl rfl rfl
    · exact .prepares rfl rfl rfl rfl
  case waitingForTrade =>
    split at h
    · rename_i hclosed
      cases h
      exact .ends (by simp [endsTrade, closesMenu, hclosed]) rfl rfl
    · rename_i hopen
      have hends : endsTrade ⟨⟨.waitingForTrade, counter, party, isMaster⟩, data, toSend, after⟩ =
          false := by
        simp [endsTrade, confirmsTrade, closesMenu, hopen]
      cases data with
      | none => cases h
      | some selected =>
          simp only at h
          split at h <;> cases h <;> exact .trades hends rfl rfl rfl
  case tradeConfirmation =>
    split at h
    · rename_i hcancelled
      cases h
      subst hcancelled
      exact .trades rfl rfl rfl rfl
    · split at h
      · rename_i hconfirmed
        cases h
        exact .ends (by simp [endsTrade, confirmsTrade, hconfirmed]) rfl rfl
      · rename_i hwaiting
        cases h
        exact .trades (by simp [endsTrade, confirmsTrade, closesMenu, hwaiting]) rfl rfl rfl
  case tradeInitiated | tradeCancelled =>
    split at h <;> cases h <;> exact .trades rfl rfl rfl rfl

/-! ## One transmission -/

/-- Of the calls, newest first, only `enter` enters the state; those of `block` came next and
returned `sent`, and then came the others. -/
structure IsTransmission (sent : List Byte) (later block : List DataCall) (enter : DataCall)
    (earlier : List DataCall) : Prop where
  enters : entersSending enter = true
  sends : ∀ c ∈ block, sendsParty c = true
  outputs : (block.map Call.output).reverse = sent
  once : ∀ c ∈ later ++ earlier, entersSending c = false

def Transmitted (sent : List Byte) (later news : List DataCall) : Prop :=
  ∃ block enter earlier,
    news = later ++ (block ++ enter :: earlier) ∧ IsTransmission sent later block enter earlier

variable {D sent left : List Byte} {c : DataCall} {s : PokeTrader} {later news past : List DataCall}

theorem transmitted_enters (henters : entersSending c = true)
    (hnews : ∀ c ∈ news, entersSending c = false) : Transmitted [] [] (c :: news) :=
  ⟨[], c, news, rfl, henters, by simp, rfl, hnews⟩

theorem Transmitted.sends (h : Transmitted sent [] news) (hsends : sendsParty c = true) :
    Transmitted (sent ++ [c.output]) [] (c :: news) := by
  obtain ⟨block, enter, earlier, rfl, h⟩ := h
  refine ⟨c :: block, enter, earlier, rfl, h.enters, ?_, ?_, h.once⟩
  · exact List.forall_mem_cons.mpr ⟨hsends, h.sends⟩
  · rw [List.map_cons, List.reverse_cons, h.outputs]

theorem Transmitted.goesOn (h : Transmitted sent later news) (henters : entersSending c = false) :
    Transmitted sent (c :: later) (c :: news) := by
  obtain ⟨block, enter, earlier, rfl, h⟩ := h
  refine ⟨block, enter, earlier, rfl, h.enters, h.sends, h.outputs, ?_⟩
  exact List.forall_mem_cons.mpr ⟨henters, h.once⟩

/-- What has been sent of the party since the last trade. -/
def Progress (D : List Byte) (ph : Phase) (news : List DataCall) : Prop :=
  match ph with
  | .preparing => ∀ c ∈ news, entersSending c = false
  | .sending left => ∃ sent, sent ++ left = D ∧ Transmitted sent [] news
  | .trading => ∃ later, Transmitted D later news

theorem progress_step (h : Makes PokeTrader.onClientData c)
    (hparty : c.before.serializedTrainerData = D)
    (hprogress : Progress D c.before.phase (since endsTrade past)) :
    Progress D c.after.phase (since endsTrade (c :: past)) := by
  cases does_of_makes h with
  | prepares hends henters hbefore hafter =>
      rw [hbefore] at hprogress
      rw [hafter, since_cons_of_neg hends]
      exact List.forall_mem_cons.mpr ⟨henters, hprogress⟩
  | enters hends henters hbefore hafter =>
      rw [hbefore] at hprogress
      rw [hafter, since_cons_of_neg hends, party_of_makes h, hparty]
      exact ⟨[], rfl, transmitted_enters henters hprogress⟩
  | sends hends hsends left hbefore hafter =>
      rw [hbefore] at hprogress
      rw [hafter, since_cons_of_neg hends]
      obtain ⟨sent, hsent, htransmitted⟩ := hprogress
      refine ⟨sent ++ [c.output], ?_, htransmitted.sends hsends⟩
      rw [List.append_assoc, List.singleton_append, hsent]
  | finishes hends henters hbefore hafter =>
      rw [hbefore] at hprogress
      rw [hafter, since_cons_of_neg hends]
      obtain ⟨sent, hsent, htransmitted⟩ := hprogress
      rw [List.append_nil] at hsent
      exact ⟨[c], hsent ▸ htransmitted.goesOn henters⟩
  | trades hends henters hbefore hafter =>
      rw [hbefore] at hprogress
      rw [hafter, since_cons_of_neg hends]
      obtain ⟨later, htransmitted⟩ := hprogress
      exact ⟨c :: later, htransmitted.goesOn henters⟩
  | ends hends hbefore hafter =>
      rw [hafter, since_cons_of_pos hends]
      exact List.forall_mem_nil _

/-! ## While the party is being sent -/

/-- The next calls of a run return the bytes that are left, whatever they are given. -/
structure SendsAll (left : List Byte) (r : List DataCall × Option Raised) : Prop where
  outputs : (r.1.take left.length).map Call.output = left.take r.1.length
  stays : ∀ c ∈ r.1.take left.length, sendsParty c = true
  goesOn : r.1.length < left.length → r.2 = none

theorem phase_eq_sending (h : s.phase = .sending left) :
    s.tradeState = .sendingTrainerData ∧ s.serializedTrainerData.drop s.transferCounter = left := by
  obtain ⟨state, counter, party, isMaster⟩ := s
  cases state <;> cases h
  exact ⟨rfl, rfl⟩

theorem onClientData_sending {b : Byte} (h : s.phase = .sending (b :: left))
    (data : Option Byte) : ∃ s', s.onClientData data = .ok (s', b) ∧ s'.phase = .sending left ∧
      sendsParty ⟨s, data, b, s'⟩ = true := by
  obtain ⟨state, counter, party, isMaster⟩ := s
  obtain ⟨rfl, hleft⟩ := phase_eq_sending h
  simp only at hleft
  have hcounter : counter < party.length := by
    apply Nat.lt_of_not_le
    intro hle
    rw [List.drop_eq_nil_of_le hle] at hleft
    cases hleft
  rw [List.drop_eq_getElem_cons hcounter, List.cons.injEq] at hleft
  obtain ⟨rfl, rfl⟩ := hleft
  refine ⟨⟨.sendingTrainerData, counter + 1, party, isMaster⟩, ?_, rfl, rfl⟩
  simp only [PokeTrader.onClientData, if_pos hcounter, List.getElem?_eq_getElem hcounter]

theorem sendsAll_run (h : s.phase = .sending left) (inputs : List (Option Byte)) :
    SendsAll left (run PokeTrader.onClientData s inputs) := by
  induction left generalizing s inputs with
  | nil => exact ⟨by simp, by simp, by simp⟩
  | cons b left ih =>
      cases inputs with
      | nil => exact ⟨rfl, by simp [run], fun _ => rfl⟩
      | cons data inputs =>
          obtain ⟨s', hcall, hphase, hsends⟩ := onClientData_sending h data
          obtain ⟨houtputs, hstays, hgoesOn⟩ := ih hphase inputs
          rw [run_ok hcall]
          refine ⟨congrArg (b :: ·) houtputs, ?_, fun hlength => hgoesOn ?_⟩
          · exact List.forall_mem_cons.mpr ⟨hsends, hstays⟩
          · exact Nat.lt_of_succ_lt_succ hlength

theorem not_indexError (s : PokeTrader) (data : Option Byte) :
    s.onClientData data ≠ .error .indexError := by
  obtain ⟨state, counter, party, isMaster⟩ := s
  cases state <;> simp only [PokeTrader.onClientData] <;> grind

/-! ## The contract -/

/-- The whole party is sent whenever the sending begins, and exactly once for every trade
that is confirmed. -/
structure SendsWholeParty (D : List Byte) (r : List DataCall × Option Raised) : Prop where
  whole : ∀ pre c post, r.1 = pre ++ c :: post → entersSending c = true →
    SendsAll D (post, r.2)
  confirmed : Always (fun c past => confirmsTrade c = true →
    ∃ later, Transmitted D later (since endsTrade past)) r.1.reverse
  inRange : r.2 ≠ some .indexError

theorem phase_of_enters (h : Makes PokeTrader.onClientData c) (henters : entersSending c = true) :
    c.after.phase = .sending c.after.serializedTrainerData := by
  cases does_of_makes h with
  | enters _ _ _ hafter => exact hafter
  | sends _ hsends => exact absurd (of_decide_eq_true hsends).1 (of_decide_eq_true henters).1
  | ends _ _ hafter =>
      rw [PokeTrader.phase, (of_decide_eq_true henters).2] at hafter
      cases hafter
  | prepares _ hnot | finishes _ hnot | trades _ hnot =>
      rw [hnot] at henters
      cases henters

theorem progress_confirms (hconfirms : confirmsTrade c = true)
    (hprogress : Progress D c.before.phase news) : ∃ later, Transmitted D later news := by
  have hphase : c.before.phase = .trading := by
    rw [PokeTrader.phase, (of_decide_eq_true hconfirms).1]
  rwa [hphase] at hprogress

theorem sendsWholeParty (D : List Byte) (isMaster : Bool) (inputs : List (Option Byte)) :
    SendsWholeParty D (run PokeTrader.onClientData (PokeTrader.start D isMaster) inputs) := by
  refine ⟨fun pre c post hsplit henters => ?_, ?_, fun hraised => ?_⟩
  · have hmem : c ∈ (run PokeTrader.onClientData (PokeTrader.start D isMaster) inputs).1 :=
      hsplit ▸ List.mem_append_right pre List.mem_cons_self
    obtain ⟨_, hparty⟩ := invariant_run (I := fun s => s.serializedTrainerData = D)
      (fun c hmakes hbefore => (party_of_makes hmakes).trans hbefore) rfl hmem
    obtain ⟨hmakes, inputs', hrun⟩ := run_cut_cons hsplit
    have hphase := phase_of_enters hmakes henters
    rw [hparty] at hphase
    rw [← hrun]
    exact sendsAll_run hphase inputs'
  · refine always_calls (H := fun _ => True) (I := fun s past =>
      s.serializedTrainerData = D ∧ Progress D s.phase (since endsTrade past)) ?_ ?_
      fun _ _ => trivial
    · rintro c past hmakes _ ⟨hparty, hprogress⟩
      refine ⟨fun hconfirms => ?_, ?_, ?_⟩
      · exact progress_confirms hconfirms hprogress
      · exact (party_of_makes hmakes).trans hparty
      · exact progress_step hmakes hparty hprogress
    · exact ⟨rfl, List.forall_mem_nil _⟩
  · obtain ⟨s, data, herror⟩ := raised_of_run hraised
    exact not_indexError s data herror

/-- Two trades. -/
example :
    (run PokeTrader.onClientData (PokeTrader.start [7, 8] false)
      [some 0x01, some 0x60, some 0xD4, some 0xFD, some 0, some 0xFD, some 5, some 5, some 0,
        some 0x60, some 0, some 0x62, some 0xFD, some 0, some 0xFD, some 5, some 5]).1.map
      Call.output =
    [0x02, 0x60, 0xD4, 0xFD, 0, 0xFD, 7, 8, 0, 0x60, 0, 0x62, 0xFD, 0, 0xFD, 7, 8] := by
  decide

end GbPlay.Tools.MockTrade
