import GbPlay.Tools.Bgb.Handled
import GbPlay.Tools.MockTrade.Party

/-!
# Trading with a Game Boy and with an emulator

`trader.py serial`: the trader is the data handler of a `SerialLinkCableServer`;
`trader.py bgb`: it is that of a `BGBLinkCableServer`.
-/

namespace GbPlay.Tools.MockTrade

open GbPlay.Arduino GbPlay.Library.Histories GbPlay.Library.Machines GbPlay.Library.Runs
  GbPlay.Library.Sessions GbPlay.Server.Client GbPlay.Tools.SerialServer

/-- A trader, the serial server that calls it, the adapter and the Game Boy. -/
abbrev SerialTrade (γ : Type*) := SerialLinkCableServer PokeTrader Raised γ

abbrev serialTradeStep {γ : Type*} (game : Game γ) :
    SerialTrade γ → SerialServer.Label → Option (SerialTrade γ) :=
  SerialServer.step PokeTrader.onClientData game

variable {γ : Type*} {game : Game γ} {g₀ : γ} {board : Board γ} {s : SerialTrade γ}
  {D : List Byte} {isMaster : Bool} {t t' : PokeTrader} {data : Option Byte} {e : Raised}
  {c : DataCall} {later news calls : List DataCall}

/-! ## The party -/

/-- The whole party has been returned since the last trade, once and in one piece. -/
def PartySent (D : List Byte) (past : List DataCall) : Prop :=
  (since endsTrade past).countP entersSending = 1 ∧
    ∃ early late, returned (since endsTrade past) = early ++ D ++ late

theorem countP_enters_of_once (h : ∀ c ∈ news, entersSending c = false) :
    news.countP entersSending = 0 := by
  rw [List.countP_eq_zero]
  intro c hc
  rw [h c hc]
  exact Bool.false_ne_true

theorem sendsParty_not_enters (h : sendsParty c = true) : entersSending c = false := by
  obtain ⟨hbefore, _⟩ := of_decide_eq_true h
  simp [entersSending, hbefore]

theorem Transmitted.partySent (h : Transmitted D later (since endsTrade calls)) :
    PartySent D calls := by
  obtain ⟨block, enter, earlier, hnews, h⟩ := h
  have honce := List.forall_mem_append.mp h.once
  constructor
  · rw [hnews, List.countP_append, List.countP_append, List.countP_cons_of_pos h.enters,
      countP_enters_of_once honce.1, countP_enters_of_once honce.2,
      countP_enters_of_once fun c hc => sendsParty_not_enters (h.sends c hc)]
  · refine ⟨returned (enter :: earlier), returned later, ?_⟩
    calc returned (since endsTrade calls)
        = returned (enter :: earlier) ++ returned block ++ returned later := by
          rw [hnews, returned_append, returned_append]
      _ = returned (enter :: earlier) ++ D ++ returned later := by
          rw [show returned block = D from h.outputs]

/-- The calls of a trader, however they have come about. -/
theorem partySent_of_made (h : Made PokeTrader.onClientData (PokeTrader.start D isMaster) calls t) :
    Always (fun c past => confirmsTrade c = true → PartySent D past) calls := by
  have hkept := h.always (I := fun t past => t.serializedTrainerData = D ∧
    Progress D t.phase (since endsTrade past))
    (P := fun c past => confirmsTrade c = true → PartySent D past) ?_ ?_
  · exact hkept.1
  · rintro c past hmakes ⟨hparty, hprogress⟩
    refine ⟨fun hconfirms => ?_, (party_of_makes hmakes).trans hparty, ?_⟩
    · obtain ⟨later, htransmitted⟩ := progress_confirms hconfirms hprogress
      exact htransmitted.partySent
    · exact progress_step hmakes hparty hprogress
  · exact ⟨rfl, List.forall_mem_nil _⟩

/-! ## The end of a run -/

/-- The partner has left the link, or asks for what the trader does not do. -/
inductive Refuses : Byte → Raised → Prop
  | battle : Refuses PokeTrader.selectBattleMagic (.exception "Battles are not supported")
  | cancel : Refuses PokeTrader.selectCancelMagic (.exception "Link cancelled by client")
  | reset : Refuses PokeTrader.masterMagic (.exception "Link cancelled by client")

theorem raises (h : t.onClientData data = .error e) :
    (t.tradeState = .waitingForLinkType ∧ ∃ b, data = some b ∧ Refuses b e) ∨
      (t.tradeState = .waitingForTrade ∧ data = none) := by
  obtain ⟨state, counter, party, isMaster⟩ := t
  cases state <;> simp only [PokeTrader.onClientData] at h
  case waitingForLinkType =>
    left
    refine ⟨rfl, ?_⟩
    split at h
    · cases h
    · split at h
      · cases h
      · split at h
        · cases h
          exact ⟨_, ‹_›, .battle⟩
        · split at h
          · cases h
            rename_i hleft
            rcases hleft with hcancel | hreset
            · exact ⟨_, hcancel, .cancel⟩
            · exact ⟨_, hreset, .reset⟩
          · cases h
  case waitingForTrade =>
    right
    refine ⟨rfl, ?_⟩
    split at h
    · cases h
    · cases data with
      | none => rfl
      | some selected =>
          simp only at h
          split at h <;> cases h
  case sendingTrainerData =>
    split at h
    · rename_i hcounter
      rw [List.getElem?_eq_getElem hcounter] at h
      cases h
    · cases h
  all_goals (repeat' split at h) <;> cases h

/-- The trader has been given a byte before it leaves its first state. -/
theorem notConnected_of_made
    (h : Made PokeTrader.onClientData (PokeTrader.start D isMaster) [] t) :
    t.tradeState = .notConnected := by
  cases h
  rfl

/-- Only the Game Boy can make the trader raise. -/
theorem refuses_of_raised (h : Inv PokeTrader.onClientData game (PokeTrader.start D isMaster) g₀ s)
    (hmain : s.main = .raised e) :
    s.handler.tradeState = .waitingForLinkType ∧
      ∃ b, lastAnswer game g₀ s.calls = some b ∧ Refuses b e := by
  obtain ⟨hmade, _, hstage⟩ := h
  generalize s.calls = calls at hmade hstage ⊢
  rw [hmain] at hstage
  cases hstage with
  | raised herror =>
      rcases raises herror with hrefuses | ⟨hwaiting, hnone⟩
      · exact hrefuses
      · cases calls with
        | nil =>
            rw [notConnected_of_made hmade] at hwaiting
            cases hwaiting
        | cons c past =>
            rw [lastAnswer_cons] at hnone
            cases hnone

/-! ## With a Game Boy -/

/-- The trader is given what the Game Boy has answered to what it has returned before, the Game
Boy has been clocked in just that, and before a trade is confirmed it has been clocked in the
whole party since the last one. -/
structure Trades (D : List Byte) (isMaster : Bool) (game : Game γ) (g₀ : γ) (s : SerialTrade γ) :
    Prop where
  made : Made PokeTrader.onClientData (PokeTrader.start D isMaster) s.calls s.handler
  fed : Always (Fed game g₀) s.calls
  gameBoy : ∃ clocked, s.gameBoy = after game.device g₀ clocked ∧
    (returned s.calls = clocked ∨ ∃ b, returned s.calls = clocked ++ [b])
  party : Always (fun c past => confirmsTrade c = true → PartySent D past) s.calls

/-- In every run of the trader, the serial port, the adapter and the Game Boy. -/
theorem trades_over_serial (hwaits : Waits game board g₀)
    (h : Reachable (Fires (serialTradeStep game))
      (SerialServer.start (PokeTrader.start D isMaster) board) s) :
    Trades D isMaster game g₀ s := by
  have hinv := inv_of_reachable hwaits h
  exact ⟨hinv.made, hinv.fed, hinv.gameBoy, partySent_of_made hinv.made⟩

/-- A game that answers these bytes and then zeros. -/
def scriptedGame : Game (List Byte) := { next := fun g => g.headD 0, receive := fun g _ => g.tail }

def scriptedBoard (g : List Byte) : Board (List Byte) :=
  { clk := true, so := true, port := { state := g, register := g.headD 0, out := true } }

theorem waits_scriptedBoard (g : List Byte) : Waits scriptedGame (scriptedBoard g) g :=
  ⟨rfl, rfl, rfl, .inl rfl⟩

def boot : List SerialServer.Label := [.link .setup, .wake]

/-- A byte is sent and answered, again and again, and the trader is called. -/
def exchanges : Nat → List SerialServer.Label
  | 0 => [.call]
  | n + 1 => [.call, .write, .link .read, .link .transfer, .link .write, .read] ++ exchanges n

/-- A Game Boy that trades its first Pokemon for the first one of the party. -/
def trade : List Byte := [0x60, 0xD4, 0xFD, 0, 0xFD, 5, 5, 5, 0x60, 0, 0x62]

/-- A trade has been confirmed. -/
theorem trades_over_serial_confirmed :
    ∃ s : SerialTrade (List Byte), s.calls.any confirmsTrade = true ∧
      Trades [7, 8] true scriptedGame trade s := by
  have hrun : (exec (serialTradeStep scriptedGame)
      (SerialServer.start (PokeTrader.start [7, 8] true) (scriptedBoard trade))
      (boot ++ exchanges 11)).any (fun s => s.calls.any confirmsTrade) = true := by
    decide +kernel
  obtain ⟨s, hreach, hs⟩ := exists_reachable_of_exec hrun
  exact ⟨s, hs, trades_over_serial (waits_scriptedBoard trade) hreach⟩

/-- As long as neither the serial port nor the adapter fails, the trader is called again after at
most five steps, until the Game Boy leaves the link or asks for a battle. -/
theorem trade_goes_on (hwaits : Waits game board g₀)
    (h : Reachable (Fires (serialTradeStep game))
      (SerialServer.start (PokeTrader.start D isMaster) board) s) (hwell : AllWell s) :
    ((∃ l s', serialTradeStep game s l = some s' ∧ AllWell s') ∨
      ∃ b e, s.main = .raised e ∧ s.handler.tradeState = .waitingForLinkType ∧
        lastAnswer game g₀ s.calls = some b ∧ Refuses b e) ∧
    ∀ ls s', Run (Fires (serialTradeStep game)) s ls s' → AllWell s' →
      (∀ l ∈ ls, l.isCall = false) → ls.length ≤ 5 := by
  have hinv := inv_of_reachable hwaits h
  constructor
  · rcases hinv.goesOn hwell with ⟨e, hmain⟩ | hgoes
    · obtain ⟨hstate, b, hlast, hrefuses⟩ := refuses_of_raised hinv hmain
      exact .inr ⟨b, e, hmain, hstate, hlast, hrefuses⟩
    · exact .inl hgoes
  · intro ls s' hrun hwell' hcall
    exact length_le_of_run hinv hrun hcall hwell'

/-- A Game Boy that selects a battle. -/
def battle : List Byte := [0x60, 0xD5]

theorem trade_goes_on_battle :
    ∃ s : SerialTrade (List Byte), s.main = .raised (.exception "Battles are not supported") ∧
      ((∃ l s', serialTradeStep scriptedGame s l = some s' ∧ AllWell s') ∨
        ∃ b e, s.main = .raised e ∧ s.handler.tradeState = .waitingForLinkType ∧
          lastAnswer scriptedGame battle s.calls = some b ∧ Refuses b e) := by
  have hrun : (exec (serialTradeStep scriptedGame)
      (SerialServer.start (PokeTrader.start [7, 8] true) (scriptedBoard battle))
      (boot ++ exchanges 2)).any (fun s =>
        decide (s.main = .raised (.exception "Battles are not supported")) &&
          (s.running && s.link.running)) = true := by
    decide +kernel
  obtain ⟨s, hreach, hs⟩ := exists_reachable_of_exec hrun
  rw [Bool.and_eq_true, decide_eq_true_iff, Bool.and_eq_true] at hs
  exact ⟨s, hs.1, (trade_goes_on (waits_scriptedBoard battle) hreach hs.2).1⟩

/-! ## With an emulator -/

/-- A trader, and the server that calls it with the threads of the program. -/
abbrev EmulatorTrade := Bgb.Handled.State PokeTrader Raised

abbrev emulatorTradeStep : EmulatorTrade → Bgb.Handled.Label → Option EmulatorTrade :=
  Bgb.Handled.step PokeTrader.onClientData

/-- The trader is given the bytes of the emulator in order, and a send of what it returns has been
tried before it is given the next one.  Before a trade is confirmed it has returned the whole party
since the last one, and the emulator has been sent that, unless one of these sends has failed; only
the emulator can make it raise. -/
structure TradesWithEmulator (D : List Byte) (isMaster : Bool) (s : EmulatorTrade) : Prop where
  made : Made PokeTrader.onClientData (PokeTrader.start D isMaster) s.calls s.handler
  accounted : ∃ left pending, Bgb.Handled.Accounted s.calls s.server.log left pending ∧
    left.length + pending.length ≤ 1
  delivered : Always (fun _ past => Bgb.Handled.Delivered s.server.log past) s.calls
  party : Always (fun c past => confirmsTrade c = true → PartySent D past) s.calls
  raised : ∀ e, s.raised = some e → s.handler.tradeState = .waitingForLinkType ∧
    ∃ b, (BgbSerialLink.masterBytes s.server.log).getLast? = some b ∧ Refuses b e

/-- In every run of the trader, its server and the threads, whichever sends fail. -/
theorem trades_with_emulator {s : EmulatorTrade}
    (h : Reachable (Fires emulatorTradeStep) (Bgb.Handled.start (PokeTrader.start D isMaster)) s) :
    TradesWithEmulator D isMaster s := by
  have hinv := Bgb.Handled.inv_of_reachable h
  refine ⟨hinv.made, hinv.accounted, hinv.delivered, partySent_of_made hinv.made,
    fun e hraised => ?_⟩
  obtain ⟨b, hlast, herror⟩ := hinv.raised_last hraised
  rcases raises herror with ⟨hstate, b', hb, hrefuses⟩ | ⟨_, hnone⟩
  · cases hb
    exact ⟨hstate, b, hlast, hrefuses⟩
  · cases hnone

/-- The emulator sends a byte, and is answered. -/
def answerByte (b : Byte) : List Bgb.Handled.Label :=
  [.server .check, .server (.recv [104, b, 0x81, 0, 0, 0, 0, 0]), .call, .server (.send true)]

/-- An emulator has traded, and no send has failed. -/
theorem trades_with_emulator_confirmed :
    ∃ s : EmulatorTrade, s.calls.any confirmsTrade = true ∧
      (∀ x ∈ Bgb.Handled.slaveSends s.server.log, x.2 = true) ∧
      TradesWithEmulator [7, 8] false s := by
  have hrun : (exec emulatorTradeStep (Bgb.Handled.start (PokeTrader.start [7, 8] false))
      ([.server .accept, .server (.send true)] ++ (0x01 :: trade).flatMap answerByte)).any
      (fun s => s.calls.any confirmsTrade &&
        (Bgb.Handled.slaveSends s.server.log).all Prod.snd) = true := by
    decide +kernel
  obtain ⟨s, hreach, hs⟩ := exists_reachable_of_exec hrun
  rw [Bool.and_eq_true, List.all_eq_true] at hs
  exact ⟨s, hs.1, hs.2, trades_with_emulator hreach⟩

end GbPlay.Tools.MockTrade
