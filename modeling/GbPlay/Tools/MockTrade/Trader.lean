import GbPlay.Library.Machines
import GbPlay.Tools.PokemonData.Trainer

/-!
# The mock trader

`PokeTrader` of `pokered-mock-trade/trader.py`.  A server calls `on_client_data` with
one byte after the other and sends what it returns; the serial server has received
nothing before its first call, and passes `None`.
-/

namespace GbPlay.Tools.MockTrade

open GbPlay.Library.Machines
open GbPlay.Server.Client (Byte)
open GbPlay.Tools.PokemonData (Trainer mew)

inductive TradeState
  | notConnected
  | waitingForLinkType
  | selectedTrade
  | waitingForRandomSeed
  | sendingRandomSeed
  | sendingTrainerData
  | waitingForTrade
  | tradeInitiated
  | tradeConfirmation
  | tradeCancelled
  deriving DecidableEq, Repr

/-- Everything but the server. -/
structure PokeTrader where
  tradeState : TradeState := .notConnected
  transferCounter : Nat := 0
  serializedTrainerData : List Byte
  isMaster : Bool := false
  deriving DecidableEq, Repr

/-- What ends a run. -/
inductive Raised
  | exception (message : String)
  | typeError
  | indexError
  deriving DecidableEq, Repr

namespace PokeTrader

def masterMagic : Byte := 0x01
def slaveMagic : Byte := 0x02
def connectedMagic : Byte := 0x60
def selectTradeMagic : Byte := 0xD4
def selectBattleMagic : Byte := 0xD5
def selectCancelMagic : Byte := 0xD6
def terminatorMagic : Byte := 0xFD
def tradeMenuClosedMagic : Byte := 0x6F
def firstPokemonMagic : Byte := 0x60
def lastPokemonMagic : Byte := 0x65
def tradeCancelledMagic : Byte := 0x61
def tradeConfirmedMagic : Byte := 0x62

/-- `__init__`, given what `serialize` returned. -/
def start (serializedTrainerData : List Byte) (isMaster : Bool) : PokeTrader :=
  { serializedTrainerData, isMaster }

/-- `none` when `serialize` raises. -/
def create (trainerData : Trainer) (isMaster : Bool) : Option PokeTrader :=
  trainerData.serialize.map fun serialized => start serialized isMaster

/-- The trainer of the script. -/
def trainerData : Trainer := Trainer.addAll { name := ['M', 'a', 't', 't'] } [mew]

/-- `toSend` is an echo unless a branch overrides it. -/
def onClientData (s : PokeTrader) (data : Option Byte) : Except Raised (PokeTrader × Byte) :=
  let toSend := data.getD 0
  match s.tradeState with
  | .notConnected =>
      if data = some connectedMagic then
        .ok ({ s with tradeState := .waitingForLinkType }, connectedMagic)
      else if s.isMaster then .ok (s, masterMagic)
      else if data = some masterMagic then .ok (s, slaveMagic)
      else .ok (s, toSend)
  | .waitingForLinkType =>
      if data = some connectedMagic then .ok (s, connectedMagic)
      else if data = some selectTradeMagic then
        .ok ({ s with tradeState := .selectedTrade }, toSend)
      else if data = some selectBattleMagic then
        .error (.exception "Battles are not supported")
      else if data = some selectCancelMagic ∨ data = some masterMagic then
        .error (.exception "Link cancelled by client")
      else .ok (s, toSend)
  | .selectedTrade =>
      if data = some terminatorMagic then
        .ok ({ s with tradeState := .waitingForRandomSeed }, toSend)
      else .ok (s, toSend)
  | .waitingForRandomSeed =>
      if data ≠ some terminatorMagic then
        .ok ({ s with tradeState := .sendingRandomSeed }, toSend)
      else .ok (s, toSend)
  | .sendingRandomSeed =>
      if data = some terminatorMagic then
        .ok ({ s with tradeState := .sendingTrainerData, transferCounter := 0 }, toSend)
      else .ok (s, toSend)
  | .sendingTrainerData =>
      if s.transferCounter < s.serializedTrainerData.length then
        match s.serializedTrainerData[s.transferCounter]? with
        | some b => .ok ({ s with transferCounter := s.transferCounter + 1 }, b)
        | none => .error .indexError
      else .ok ({ s with tradeState := .waitingForTrade, transferCounter := 0 }, toSend)
  | .waitingForTrade =>
      if data = some tradeMenuClosedMagic then
        .ok ({ s with tradeState := .selectedTrade }, toSend)
      else
        match data with
        | none => .error .typeError
        | some selected =>
            if firstPokemonMagic ≤ selected ∧ selected ≤ lastPokemonMagic then
              .ok ({ s with tradeState := .tradeInitiated }, toSend)
            else .ok (s, toSend)
  | .tradeInitiated =>
      if data ≠ some 0 then .ok (s, firstPokemonMagic)
      else .ok ({ s with tradeState := .tradeConfirmation }, toSend)
  | .tradeConfirmation =>
      if data = some tradeCancelledMagic then
        .ok ({ s with tradeState := .tradeCancelled }, toSend)
      else if data = some tradeConfirmedMagic then
        .ok ({ s with tradeState := .selectedTrade }, toSend)
      else .ok (s, toSend)
  | .tradeCancelled =>
      if data = some 0 then .ok ({ s with tradeState := .waitingForTrade }, toSend)
      else .ok (s, toSend)

end PokeTrader

/-- A call of `on_client_data` that returns. -/
abbrev DataCall := Call PokeTrader (Option Byte) Byte

variable {c : DataCall}

theorem party_of_makes (h : Makes PokeTrader.onClientData c) :
    c.after.serializedTrainerData = c.before.serializedTrainerData := by
  obtain ⟨⟨state, counter, party, isMaster⟩, data, toSend, after⟩ := c
  cases state <;> simp only [Makes, PokeTrader.onClientData] at h <;> grind

end GbPlay.Tools.MockTrade
