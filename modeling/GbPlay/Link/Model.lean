import GbPlay.Library.Runs
import GbPlay.Server.Client
import Mathlib.Data.List.Basic

/-!
# The link from the server to one Game Boy

The server's `exchangeByte`, one TCP connection and the dongle's
`_handle_data_until_error` loop, with the Game Boy an arbitrary state machine
on the SPI bus.

Every byte on the way carries the number of the call that wrote it, or, on the
way back, of the call whose byte it answers.  The program has no such number:
it records where a byte came from, so that the theorems can say which call a
reply is attributed to.
-/

namespace GbPlay.Link.Model

open GbPlay.Library.Runs GbPlay.Server.Client

structure Frame where
  call : Nat
  byte : Byte
  deriving DecidableEq, Repr

/-- One transfer on the SPI bus: the byte clocked in and the Game Boy's reply. -/
structure Transfer where
  rx : Byte
  tx : Byte
  deriving DecidableEq, Repr

/-- Where `_handle_data_until_error` is in its loop. -/
inductive Dongle
  | reading
  | exchanging (rx : Frame)
  | writing (tx : Frame)
  | stopped
  deriving DecidableEq, Repr

/-- `call` is the `exchangeByte` call in progress. -/
structure State (γ : Type*) where
  client : GameBoyClient
  call : Option Call
  calls : List Int
  outcomes : List Outcome
  down : List Frame
  up : List Frame
  dongle : Dongle
  gameBoy : γ
  transfers : List Transfer

variable {γ : Type*}

def init (g₀ : γ) : State γ :=
  { client := {}, call := none, calls := [], outcomes := [], down := [], up := [],
    dongle := .reading, gameBoy := g₀, transfers := [] }

/-- The steps of the three parties; those from `recv` on are the dongle's. -/
inductive Label
  | call (tx : Int)
  | write (accepted : Bool)
  | written
  | writeError
  | timeout
  | close
  | data (n : Nat)
  | recv
  | recvError
  | spi
  | send
  | sendError
  deriving DecidableEq, Repr

/-- A listener of the call ran: a settled call is over. -/
def afterListener (s : State γ) (accepted : Bool) (c : GameBoyClient) (e : Exchange) : State γ :=
  match e.outcome with
  | some o => { s with client := c, call := none, outcomes := s.outcomes ++ [o] }
  | none => { s with client := c, call := some (.exchanging accepted e) }

/-- The callback of the write that a frame answers has run. -/
def callbackRan (s : State γ) (f : Frame) : Bool :=
  match s.call with
  | some (.exchanging _ e) => f.call ≠ s.outcomes.length || e.sentByte
  | _ => true

def step (gb : γ → Byte → γ × Byte) (s : State γ) : Label → Option (State γ)
  | .call tx =>
      match s.call with
      | none => some { s with call := some (.delaying (lowByte tx)), calls := s.calls ++ [tx] }
      | _ => none
  | .write accepted =>
      match s.call with
      | some (.delaying b) =>
          if accepted then
            if s.client.socket = .connected then
              some { s with
                call := some (.exchanging true .start)
                down := s.down ++ [⟨s.outcomes.length, b⟩] }
            else none
          else some { s with call := some (.exchanging false .start) }
      | _ => none
  | .written =>
      match s.call with
      | some (.exchanging true e) =>
          if e.sentByte then none
          else some { s with call := some (.exchanging true (e.onWrite false)) }
      | _ => none
  | .writeError =>
      match s.call with
      | some (.exchanging a e) =>
          -- a stream that reports a write error has been destroyed
          if e.sentByte then none
          else some (afterListener s a s.client.disconnect (e.onWrite true))
      | _ => none
  | .timeout =>
      match s.call with
      | some (.exchanging a e) =>
          let (c, e') := onTimeout s.client e
          some (afterListener s a c e')
      | _ => none
  | .close =>
      if s.client.socket = .closed then none
      else
        let c := { s.client with socket := .closed }
        match s.call with
        | some (.exchanging a e) => some (afterListener s a c e.onClose)
        | _ => some { s with client := c }
  | .data n =>
      match s.up.take n with
      | [] => none
      | f :: fs =>
          if s.client.socket = .connected ∧ (f :: fs).all (callbackRan s) then
            let s' := { s with up := s.up.drop n }
            match s.call with
            | some (.exchanging a e) =>
                let (c, e') := onData s.client e f.byte
                some (afterListener s' a c e')
            | _ => some s'
          else none
  | .recv =>
      match s.dongle, s.down with
      | .reading, f :: rest => some { s with dongle := .exchanging f, down := rest }
      | _, _ => none
  | .recvError =>
      match s.dongle with
      | .reading => some { s with dongle := .stopped }
      | _ => none
  | .spi =>
      match s.dongle with
      | .exchanging f =>
          let (g, b) := gb s.gameBoy f.byte
          some { s with
            dongle := .writing ⟨f.call, b⟩, gameBoy := g
            transfers := s.transfers ++ [⟨f.byte, b⟩] }
      | _ => none
  | .send =>
      match s.dongle with
      | .writing f => some { s with dongle := .reading, up := s.up ++ [f] }
      | _ => none
  | .sendError =>
      match s.dongle with
      | .writing _ => some { s with dongle := .stopped }
      | _ => none

end GbPlay.Link.Model
