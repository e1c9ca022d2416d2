import GbPlay.Arduino.GbToSerial

/-!
# Programs that reach a Game Boy over serial

`SerialLinkCableClient`: the constructor waits for the byte that the adapter writes
when it has started, and `send` writes a byte and reads the answer.
-/

namespace GbPlay.Tools.SerialLink

open GbPlay.Arduino GbPlay.Library.Relays GbPlay.Server.Client

variable {γ : Type*}

/-- A `SerialLinkCableClient` and the adapter at its serial port. -/
abbrev Link (γ : Type*) := Relayed (Sketch γ) Byte Byte

abbrev LinkLabel := RelayLabel SketchLabel

def serialLink (game : Game γ) : Component (Link γ) LinkLabel Byte Byte :=
  relayed (adapter game)

/-- `__init__` reads a byte before anything is sent. -/
def openLink (board : Board γ) : Link γ := { relay := .waking, inner := { board } }

abbrev LinkPhase (game : Game γ) : Link γ → Phase γ Byte Byte → Prop :=
  RelayPhase (SketchPhase game)

abbrev Link.Alive : Link γ → Prop := Relayed.Alive fun s => s.running = true

abbrev Link.rank : Link γ → Nat := Relayed.rank Sketch.rank 3

variable {game : Game γ} {board : Board γ} {g : γ}

theorem serves_serialLink (game : Game γ) : Serves (serialLink game) game.device (LinkPhase game) :=
  (serves_adapter game).relayed

theorem responds_serialLink (game : Game γ) :
    Responds (serialLink game) (LinkPhase game) Link.Alive Link.rank 7 :=
  (responds_adapter game).relayed

theorem bounded_link (game : Game γ) : Bounded (LinkPhase game) Link.rank 2 9 3 :=
  (bounded_adapter game).relayed 3

/-- The byte of the adapter is the answer that the link waits for first. -/
theorem linkPhase_openLink (h : Waits game board g) :
    LinkPhase game (openLink board) (.idle g) :=
  .waking rfl rfl rfl (.booting rfl rfl rfl rfl h)

end GbPlay.Tools.SerialLink
