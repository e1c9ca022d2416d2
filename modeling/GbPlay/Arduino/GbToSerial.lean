import GbPlay.Arduino.TransferByte
import GbPlay.Library.Relays

/-!
# The adapter between a serial port and a Game Boy

`gb_to_serial.ino`: once it is set up the sketch writes a byte to the serial port,
and from then on it clocks every byte it reads into the Game Boy and writes back the
byte that comes out.
-/

namespace GbPlay.Arduino

open GbPlay.Server.Client GbPlay.Library.Relays

/-- Where `loop` stands. -/
inductive Loop
  | available
  | transferring (tx : Byte)
  | writing (rx : Byte)
  deriving DecidableEq, Repr

/-- `serialIn` and `serialOut` are what is on its way on the serial port. -/
structure Sketch (γ : Type*) where
  ready : Bool := false
  running : Bool := true
  serialIn : List Byte := []
  loop : Loop := .available
  serialOut : List Byte := []
  board : Board γ

inductive SketchLabel
  | setup
  | read
  | transfer
  | write
  | unplug
  deriving DecidableEq, Repr

variable {γ : Type*}

def sketchStep (game : Game γ) (s : Sketch γ) : SketchLabel → Option (Sketch γ)
  | .setup =>
      match s.running, s.ready with
      | true, false => some { s with
          ready := true
          -- what has come in before `Serial.begin` is lost
          serialIn := []
          serialOut := s.serialOut ++ [0]
          board := s.board.setup game }
      | _, _ => none
  | .read =>
      match s.running, s.ready, s.loop, s.serialIn with
      | true, true, .available, tx :: serialIn =>
          some { s with loop := .transferring tx, serialIn }
      | _, _, _, _ => none
  | .transfer =>
      match s.running, s.loop with
      | true, .transferring tx =>
          let (board, rx) := transferByte game s.board tx
          some { s with loop := .writing rx, board }
      | _, _ => none
  | .write =>
      match s.running, s.loop with
      | true, .writing rx => some { s with loop := .available, serialOut := s.serialOut ++ [rx] }
      | _, _ => none
  | .unplug => if s.running then some { s with running := false } else none

/-- The adapter, as a program on the PC sees it. -/
def adapter (game : Game γ) : Component (Sketch γ) SketchLabel Byte Byte where
  ask s tx := { s with serialIn := s.serialIn ++ [tx] }
  step := sketchStep game
  answer s :=
    match s.serialOut with
    | [] => none
    | rx :: serialOut => some (rx, { s with serialOut })

/-- The port waits for the next byte, and its line shows the first bit where the clock is
already low. -/
structure Waits (game : Game γ) (board : Board γ) (g : γ) : Prop where
  state : board.port.state = g
  register : board.port.register = game.next g
  shifted : board.port.shifted = 0
  line : board.clk = true ∨ board.port.out = bit board.port.register 7

section Adapter

variable {game : Game γ} {board : Board γ} {g : γ} {tx : Byte} {s s' : Sketch γ}
  {p : Phase γ Byte Byte}

theorem Waits.setup (h : Waits game board g) : Waits game (board.setup game) g := by
  obtain ⟨hstate, hregister, hshifted, hline⟩ := h
  obtain ⟨clk, so, port⟩ := board
  cases clk with
  | false => exact ⟨hstate, hregister, hshifted, hline⟩
  | true => exact ⟨hstate, hregister, hshifted, .inr rfl⟩

theorem Waits.transferByte (h : Waits game board g) (tx : Byte) :
    (transferByte game board tx).2 = (game.device g tx).2 ∧
      Waits game (Arduino.transferByte game board tx).1 (game.device g tx).1 := by
  obtain ⟨hclk, hstate, hregister, hshifted⟩ :=
    transferByte_port game tx h.shifted
  rw [h.state] at hstate hregister
  refine ⟨?_, hstate, hregister, hshifted, .inl hclk⟩
  rw [(transferByte_reply h.shifted).mpr h.line, h.register]
  rfl

inductive SketchPhase (game : Game γ) (s : Sketch γ) : Phase γ Byte Byte → Prop
  | booting {g : γ} : s.ready = false → s.serialIn = [] → s.loop = .available →
      s.serialOut = [] → Waits game s.board g → SketchPhase game s (.answered g 0)
  | idle {g : γ} : s.ready = true → s.serialIn = [] → s.loop = .available →
      s.serialOut = [] → Waits game s.board g → SketchPhase game s (.idle g)
  | asked {g : γ} {tx : Byte} : s.ready = true → s.serialIn = [tx] → s.loop = .available →
      s.serialOut = [] → Waits game s.board g → SketchPhase game s (.asked g tx)
  | transferring {g : γ} {tx : Byte} : s.ready = true → s.serialIn = [] →
      s.loop = .transferring tx → s.serialOut = [] → Waits game s.board g →
      SketchPhase game s (.asked g tx)
  | writing {g : γ} {rx : Byte} : s.ready = true → s.serialIn = [] → s.loop = .writing rx →
      s.serialOut = [] → Waits game s.board g → SketchPhase game s (.answered g rx)
  | answered {g : γ} {rx : Byte} : s.ready = true → s.serialIn = [] → s.loop = .available →
      s.serialOut = [rx] → Waits game s.board g → SketchPhase game s (.answered g rx)

inductive SketchMove (game : Game γ) (s : Sketch γ) : SketchLabel → Sketch γ → Prop
  | setup : s.running = true → s.ready = false → SketchMove game s .setup { s with
      ready := true, serialIn := [], serialOut := s.serialOut ++ [0],
      board := s.board.setup game }
  | read {tx : Byte} {serialIn : List Byte} : s.running = true → s.ready = true →
      s.loop = .available → s.serialIn = tx :: serialIn →
      SketchMove game s .read { s with loop := .transferring tx, serialIn }
  | transfer {tx : Byte} : s.running = true → s.loop = .transferring tx →
      SketchMove game s .transfer { s with
        loop := .writing (transferByte game s.board tx).2
        board := (transferByte game s.board tx).1 }
  | write {rx : Byte} : s.running = true → s.loop = .writing rx →
      SketchMove game s .write { s with loop := .available, serialOut := s.serialOut ++ [rx] }
  | unplug : s.running = true → SketchMove game s .unplug { s with running := false }

theorem sketchMove_of_step {l : SketchLabel} (h : sketchStep game s l = some s') :
    SketchMove game s l s' := by
  cases l with
  | setup =>
      simp only [sketchStep] at h
      split at h <;> cases h
      exact .setup ‹_› ‹_›
  | read =>
      simp only [sketchStep] at h
      split at h <;> cases h
      exact .read ‹_› ‹_› ‹_› ‹_›
  | transfer =>
      simp only [sketchStep] at h
      split at h <;> cases h
      exact .transfer ‹_› ‹_›
  | write =>
      simp only [sketchStep] at h
      split at h <;> cases h
      exact .write ‹_› ‹_›
  | unplug =>
      simp only [sketchStep] at h
      split at h <;> cases h
      exact .unplug ‹_›

theorem SketchPhase.unplug (h : SketchPhase game s p) :
    SketchPhase game { s with running := false } p := by
  cases h with
  | booting hready hin hloop hout hwaits => exact .booting hready hin hloop hout hwaits
  | idle hready hin hloop hout hwaits => exact .idle hready hin hloop hout hwaits
  | asked hready hin hloop hout hwaits => exact .asked hready hin hloop hout hwaits
  | transferring hready hin hloop hout hwaits => exact .transferring hready hin hloop hout hwaits
  | writing hready hin hloop hout hwaits => exact .writing hready hin hloop hout hwaits
  | answered hready hin hloop hout hwaits => exact .answered hready hin hloop hout hwaits

/-- The adapter answers as the game does. -/
theorem serves_adapter (game : Game γ) : Serves (adapter game) game.device (SketchPhase game) where
  ask := by
    intro s g h tx
    cases h with
    | idle hready hin hloop hout hwaits =>
        exact .asked hready (by simp [adapter, hin]) hloop hout hwaits
  step := by
    intro s s' p l h hstep
    cases sketchMove_of_step hstep with
    | setup hrunning hnew =>
        cases h with
        | booting _ hin hloop hout hwaits =>
            exact ⟨_, .refl _ _, .answered rfl rfl hloop (by simp [hout]) hwaits.setup⟩
        | _ => simp_all
    | read _ _ _ hserial =>
        cases h with
        | asked hready hin hloop hout hwaits =>
            rw [hin] at hserial
            cases hserial
            exact ⟨_, .refl _ _, .transferring hready rfl rfl hout hwaits⟩
        | _ => simp_all
    | @transfer tx _ htransferring =>
        cases h with
        | transferring hready hin hloop hout hwaits =>
            rw [hloop] at htransferring
            cases htransferring
            obtain ⟨hrx, hwaits'⟩ := hwaits.transferByte tx
            refine ⟨_, serving_asked _ _ _, ?_⟩
            rw [← hrx]
            exact .writing hready hin rfl hout hwaits'
        | _ => simp_all
    | write _ hwriting =>
        cases h with
        | writing hready hin hloop hout hwaits =>
            rw [hloop] at hwriting
            cases hwriting
            exact ⟨_, .refl _ _, .answered hready hin rfl (by simp [hout]) hwaits⟩
        | _ => simp_all
    | unplug => exact ⟨_, .refl _ _, h.unplug⟩
  answer := by
    intro s s' p b h hanswer
    simp only [adapter] at hanswer
    split at hanswer <;> cases hanswer
    rename_i hserial
    cases h with
    | answered hready hin hloop hout hwaits =>
        rw [hout] at hserial
        cases hserial
        exact ⟨_, rfl, .idle hready hin hloop rfl hwaits⟩
    | _ => simp_all

def Loop.rank : Loop → Nat
  | .available => 0
  | .transferring _ => 2
  | .writing _ => 1

def Sketch.rank (s : Sketch γ) : Nat :=
  (!s.ready).toNat + s.loop.rank + s.serialIn.length * 3

theorem responds_adapter (game : Game γ) :
    Responds (adapter game) (SketchPhase game) (fun s => s.running = true) Sketch.rank 3 where
  ask s a := by
    refine ⟨?_, Iff.rfl⟩
    simp only [adapter, Sketch.rank, List.length_append, List.length_singleton]
    omega
  step := by
    intro s s' l hstep halive
    cases sketchMove_of_step hstep with
    | setup hrunning hready =>
        refine ⟨hrunning, ?_⟩
        simp only [Sketch.rank, hready, List.length_nil, Bool.not_true, Bool.toNat_false,
          Bool.not_false, Bool.toNat_true]
        omega
    | read hrunning _ hloop hserial =>
        refine ⟨hrunning, ?_⟩
        simp only [Sketch.rank, hloop, hserial, Loop.rank, List.length_cons]
        omega
    | transfer hrunning hloop =>
        refine ⟨hrunning, ?_⟩
        simp only [Sketch.rank, hloop, Loop.rank]
        omega
    | write hrunning hloop =>
        refine ⟨hrunning, ?_⟩
        simp only [Sketch.rank, hloop, Loop.rank]
        omega
    | unplug => cases halive
  answer := by
    intro s s' b hanswer
    simp only [adapter] at hanswer
    split at hanswer <;> cases hanswer
    exact ⟨Nat.le_refl _, Iff.rfl⟩
  ready := by
    intro s p h halive hbusy
    cases h with
    | booting hready =>
        right
        exact ⟨.setup, { s with
          ready := true, serialIn := [], serialOut := s.serialOut ++ [0],
          board := s.board.setup game }, by simp [adapter, sketchStep, halive, hready], halive⟩
    | idle => exact absurd rfl (hbusy _)
    | @asked _ tx hready hin hloop =>
        right
        refine ⟨.read, { s with loop := .transferring tx, serialIn := [] }, ?_, halive⟩
        simp [adapter, sketchStep, halive, hready, hin, hloop]
    | @transferring _ tx _ _ hloop =>
        right
        refine ⟨.transfer, { s with
          loop := .writing (Arduino.transferByte game s.board tx).2
          board := (Arduino.transferByte game s.board tx).1 }, ?_, halive⟩
        simp [adapter, sketchStep, halive, hloop]
    | @writing _ rx _ _ hloop =>
        right
        refine ⟨.write, { s with loop := .available, serialOut := s.serialOut ++ [rx] }, ?_,
          halive⟩
        simp [adapter, sketchStep, halive, hloop]
    | answered _ _ _ hout =>
        left
        simp [adapter, hout]

theorem bounded_adapter (game : Game γ) : Bounded (SketchPhase game) Sketch.rank 0 3 1 where
  idle := by
    intro s g h
    cases h with
    | idle hready hin hloop => simp [Sketch.rank, hready, hin, hloop, Loop.rank]
  asked := by
    intro s g tx h
    cases h with
    | asked hready hin hloop => simp [Sketch.rank, hready, hin, hloop, Loop.rank]
    | transferring hready hin hloop => simp [Sketch.rank, hready, hin, hloop, Loop.rank]
  answered := by
    intro s g rx h
    cases h with
    | booting hready hin hloop => simp [Sketch.rank, hready, hin, hloop, Loop.rank]
    | writing hready hin hloop => simp [Sketch.rank, hready, hin, hloop, Loop.rank]
    | answered hready hin hloop => simp [Sketch.rank, hready, hin, hloop, Loop.rank]

/-- The state of the game in every phase. -/
theorem SketchPhase.state (h : SketchPhase game s p) : s.board.port.state = p.state := by
  cases h with
  | booting _ _ _ _ hwaits => exact hwaits.state
  | idle _ _ _ _ hwaits => exact hwaits.state
  | asked _ _ _ _ hwaits => exact hwaits.state
  | transferring _ _ _ _ hwaits => exact hwaits.state
  | writing _ _ _ _ hwaits => exact hwaits.state
  | answered _ _ _ _ hwaits => exact hwaits.state

end Adapter

end GbPlay.Arduino
