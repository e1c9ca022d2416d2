import GbPlay.Server.Client

/-!
# A byte on the pins

`transfer_byte` of `gb_to_serial.ino` against the link port of a Game Boy: a shift
register that puts out its most significant bit when the clock falls and takes in
the bit on the other line when it rises.  After eight bits the game is interrupted,
reads the byte that has come in and stores the next one to send.
-/

namespace GbPlay.Arduino

open GbPlay.Server.Client

/-- A game that is linked.  `next` is the byte it has stored in the shift register. -/
structure Game (γ : Type*) where
  next : γ → Byte
  receive : γ → Byte → γ

/-- A game as a device that answers the bytes it is sent. -/
def Game.device {γ : Type*} (game : Game γ) (g : γ) (rx : Byte) : γ × Byte :=
  (game.receive g rx, game.next g)

def bit (x : Byte) (i : Nat) : Bool := x.toBitVec.getLsbD i

def shiftIn (x : Byte) (b : Bool) : Byte := (x <<< 1) ||| (if b then 1 else 0)

/-- `out` is the level of the line to the Arduino. -/
structure LinkPort (γ : Type*) where
  state : γ
  register : Byte
  out : Bool
  shifted : Nat := 0
  deriving DecidableEq, Repr

variable {γ : Type*} {game : Game γ}

def LinkPort.clockFalls (p : LinkPort γ) : LinkPort γ := { p with out := bit p.register 7 }

def LinkPort.clockRises (game : Game γ) (p : LinkPort γ) (b : Bool) : LinkPort γ :=
  let register := shiftIn p.register b
  if p.shifted + 1 = 8 then
    let state := game.receive p.state register
    { p with state, register := game.next state, shifted := 0 }
  else { p with register, shifted := p.shifted + 1 }

/-- The levels of `PIN_CLK` and `PIN_SO`, and the port they are wired to. -/
structure Board (γ : Type*) where
  clk : Bool
  so : Bool
  port : LinkPort γ
  deriving DecidableEq, Repr

def Board.writeClk (game : Game γ) (board : Board γ) (level : Bool) : Board γ :=
  match board.clk, level with
  | true, false => { board with clk := false, port := board.port.clockFalls }
  | false, true => { board with clk := true, port := board.port.clockRises game board.so }
  | _, _ => board

def Board.writeSo (board : Board γ) (level : Bool) : Board γ := { board with so := level }

/-- `setup`: a pin is low from when it is made an output. -/
def Board.setup (game : Game γ) (board : Board γ) : Board γ :=
  (board.writeClk game false).writeSo false

/-- The variables of `transfer_byte`. -/
structure Transfer (γ : Type*) where
  board : Board γ
  tx : Byte
  rx : Byte := 0

/-- One turn of its loop. -/
def transferBit (game : Game γ) (t : Transfer γ) : Transfer γ :=
  let board := t.board.writeSo (t.tx &&& 0x80 ≠ 0)
  let tx := t.tx <<< 1
  let board := board.writeClk game false
  let rxBit : Byte := if board.port.out then 1 else 0
  let rx := (t.rx <<< 1) ||| rxBit
  let board := board.writeClk game true
  { board, tx, rx }

def transferByte (game : Game γ) (board : Board γ) (tx : Byte) : Board γ × Byte :=
  let t := Nat.repeat (transferBit game) 8 { board, tx }
  (t.board, t.rx)

/-! ## Bits -/

theorem ext_bits {x y : Byte} (h : ∀ i < 8, bit x i = bit y i) : x = y := by
  rw [← UInt8.toBitVec_inj]
  exact BitVec.eq_of_getLsbD_eq h

theorem bit_shiftIn (x : Byte) (b : Bool) (i : Nat) :
    bit (shiftIn x b) i = if i = 0 then b else decide (i < 8) && bit x (i - 1) := by
  cases i with
  | zero => cases b <;> simp [bit, shiftIn]
  | succ i => cases b <;> simp [bit, shiftIn, BitVec.getLsbD_shiftLeft]

theorem bit_shiftLeft (x : Byte) (i : Nat) :
    bit (x <<< 1) i = (decide (0 < i ∧ i < 8) && bit x (i - 1)) := by
  cases i with
  | zero => simp [bit]
  | succ i => simp [bit, BitVec.getLsbD_shiftLeft]

theorem and_0x80 (x : BitVec 8) : x &&& 128#8 = if x.getLsbD 7 then 128#8 else 0#8 := by
  apply BitVec.eq_of_getLsbD_eq
  intro i hi
  have hbit : (128#8).getLsbD i = decide (i = 7) := by
    rcases i with _ | _ | _ | _ | _ | _ | _ | _ | i <;> first | rfl | omega
  rw [BitVec.getLsbD_and, hbit]
  by_cases h7 : i = 7
  · subst h7
    cases x.getLsbD 7 <;> simp
  · cases x.getLsbD 7 <;> simp [h7, hbit]

/-- The bit that is sent is the most significant one. -/
theorem and_0x80_ne_zero (x : Byte) : decide (x &&& 0x80 ≠ 0) = bit x 7 := by
  have hbits : x.toBitVec &&& 128#8 = if bit x 7 then 128#8 else 0#8 := and_0x80 x.toBitVec
  have hzero : x &&& 0x80 ≠ 0 ↔ x.toBitVec &&& 128#8 ≠ 0#8 := not_congr UInt8.toBitVec_inj.symm
  rw [Bool.eq_iff_iff, decide_eq_true_iff, hzero, hbits]
  cases bit x 7 <;> simp

/-! ## One bit -/

/-- The port once the clock is low. -/
def Board.fallen (board : Board γ) : LinkPort γ :=
  if board.clk then board.port.clockFalls else board.port

theorem LinkPort.clockRises_of_ne {p : LinkPort γ} (h : p.shifted + 1 ≠ 8) (b : Bool) :
    p.clockRises game b =
      { p with register := shiftIn p.register b, shifted := p.shifted + 1 } := by
  rw [LinkPort.clockRises, if_neg h]

theorem transferBit_eq (game : Game γ) (t : Transfer γ) :
    transferBit game t =
      { board := ⟨true, bit t.tx 7, t.board.fallen.clockRises game (bit t.tx 7)⟩
        tx := t.tx <<< 1
        rx := shiftIn t.rx t.board.fallen.out } := by
  obtain ⟨⟨clk, so, port⟩, tx, rx⟩ := t
  cases clk <;>
    simp only [transferBit, Board.writeSo, Board.writeClk, Board.fallen, and_0x80_ne_zero] <;> rfl

/-- What is on the line when the first bit is read. -/
def Board.firstBit (board : Board γ) : Bool := board.fallen.out

/-- Where `transfer_byte` stands when `n` of its bits have been transferred. -/
structure Shifted (board : Board γ) (tx : Byte) (n : Nat) (t : Transfer γ) : Prop where
  clk : t.board.clk = (decide (0 < n) || board.clk)
  state : t.board.port.state = board.port.state
  shifted : t.board.port.shifted = n
  out : n = 0 → t.board.port.out = board.port.out
  register : ∀ i < 8, bit t.board.port.register i =
    if i < n then bit tx (i + 8 - n) else bit board.port.register (i - n)
  tx : ∀ i < 8, bit t.tx i = (decide (n ≤ i) && bit tx (i - n))
  rx : ∀ i < 8, bit t.rx i =
    if i + 1 = n then board.firstBit else decide (i < n) && bit board.port.register (i + 8 - n)

section Shifted

variable {board : Board γ} {tx : Byte} {n : Nat} {t : Transfer γ}

theorem shifted_zero (h : board.port.shifted = 0) : Shifted board tx 0 { board, tx } where
  clk := by simp
  state := rfl
  shifted := h
  out _ := rfl
  register := by simp
  tx := by simp
  rx := by
    intro i hi
    simp [bit]

theorem Shifted.fallen_register (h : Shifted board tx n t) :
    t.board.fallen.register = t.board.port.register ∧ t.board.fallen.shifted = n ∧
      t.board.fallen.state = board.port.state := by
  rw [Board.fallen]
  split
  · exact ⟨rfl, h.shifted, h.state⟩
  · exact ⟨rfl, h.shifted, h.state⟩

/-- The bit that is read. -/
theorem Shifted.fallen_out (h : Shifted board tx n t) (hn : n < 8) :
    t.board.fallen.out = if n = 0 then board.firstBit else bit board.port.register (7 - n) := by
  by_cases hzero : n = 0
  · subst hzero
    rw [if_pos rfl, Board.firstBit, Board.fallen, Board.fallen, h.clk]
    have hregister := h.register 7 (by omega)
    have hout := h.out rfl
    simp only [Nat.lt_irrefl, decide_false, Bool.false_or, Nat.not_lt_zero, if_false,
      Nat.sub_zero] at hregister ⊢
    cases board.clk
    · exact hout
    · exact hregister
  · have hclk : t.board.clk = true := by simp [h.clk, Nat.pos_of_ne_zero hzero]
    rw [if_neg hzero, Board.fallen, hclk, if_pos rfl]
    have hregister := h.register 7 (by omega)
    rw [if_neg (by omega)] at hregister
    exact hregister

theorem Shifted.transferBit (h : Shifted board tx n t) (hn : n < 7) :
    Shifted board tx (n + 1) (transferBit game t) := by
  obtain ⟨hregister, hshifted, hstate⟩ := h.fallen_register
  have hout := h.fallen_out (by omega)
  have hsent : bit t.tx 7 = bit tx (7 - n) := by
    rw [h.tx 7 (by omega), decide_eq_true (by omega), Bool.true_and]
  have hmore : t.board.fallen.shifted + 1 ≠ 8 := by omega
  rw [transferBit_eq, LinkPort.clockRises_of_ne hmore]
  constructor
  case clk => simp
  case state => exact hstate
  case shifted => exact congrArg (· + 1) hshifted
  case out => simp
  case register =>
    intro i hi
    simp only [hregister, bit_shiftIn, hsent]
    by_cases hi0 : i = 0
    · subst hi0
      rw [if_pos rfl, if_pos (by omega)]
      congr 1
      omega
    · rw [if_neg hi0, decide_eq_true hi, Bool.true_and, h.register (i - 1) (by omega)]
      grind
  case tx =>
    intro i hi
    rw [bit_shiftLeft]
    by_cases hi0 : i = 0
    · subst hi0
      simp
    · have hle : n ≤ i - 1 ↔ n + 1 ≤ i := by omega
      have hsub : i - 1 - n = i - (n + 1) := by omega
      rw [h.tx (i - 1) (by omega), decide_eq_true (show 0 < i ∧ i < 8 by omega), Bool.true_and,
        decide_eq_decide.mpr hle, hsub]
  case rx =>
    intro i hi
    rw [bit_shiftIn, hout]
    by_cases hi0 : i = 0
    · subst hi0
      have hsub : 0 + 8 - (n + 1) = 7 - n := by omega
      rw [if_pos rfl, decide_eq_true (Nat.succ_pos n), Bool.true_and, hsub]
      exact if_congr (by omega) rfl rfl
    · have heq : i - 1 + 1 = n ↔ i + 1 = n + 1 := by omega
      have hlt : i - 1 < n ↔ i < n + 1 := by omega
      have hsub : i - 1 + 8 - n = i + 8 - (n + 1) := by omega
      rw [if_neg hi0, decide_eq_true hi, Bool.true_and, h.rx (i - 1) (by omega),
        decide_eq_decide.mpr hlt, hsub]
      exact if_congr heq rfl rfl

theorem Shifted.repeat (h : board.port.shifted = 0) (hn : n < 8) :
    Shifted board tx n (Nat.repeat (Arduino.transferBit game) n { board, tx }) := by
  induction n with
  | zero => exact shifted_zero h
  | succ n ih => exact (ih (by omega)).transferBit (by omega)

/-! ## Eight bits -/

/-- The game gets the byte that is sent, all at once, and the port is ready for the next. -/
theorem transferByte_port (game : Game γ) (tx : Byte) (h : board.port.shifted = 0) :
    (transferByte game board tx).1.clk = true ∧
      (transferByte game board tx).1.port.state = game.receive board.port.state tx ∧
      (transferByte game board tx).1.port.register =
        game.next (game.receive board.port.state tx) ∧
      (transferByte game board tx).1.port.shifted = 0 := by
  have hseven : Shifted board tx 7 (Nat.repeat (Arduino.transferBit game) 7 { board, tx }) :=
    Shifted.repeat h (by omega)
  obtain ⟨hregister, hshifted, hstate⟩ := hseven.fallen_register
  have height : transferByte game board tx =
      ((Arduino.transferBit game (Nat.repeat (Arduino.transferBit game) 7 { board, tx })).board,
        (Arduino.transferBit game
          (Nat.repeat (Arduino.transferBit game) 7 { board, tx })).rx) := rfl
  rw [height, transferBit_eq]
  generalize Nat.repeat (Arduino.transferBit game) 7 { board, tx } = t at *
  have hbyte : shiftIn t.board.fallen.register (bit t.tx 7) = tx := by
    apply ext_bits
    intro i hi
    rw [bit_shiftIn, hregister, hseven.tx 7 (by omega)]
    by_cases hi0 : i = 0
    · subst hi0
      simp
    · rw [if_neg hi0, decide_eq_true hi, Bool.true_and, hseven.register (i - 1) (by omega)]
      grind
  simp [LinkPort.clockRises, hshifted, hbyte, hstate]

/-- The byte that comes back is the one the game had stored, but for its first bit where the
clock was low before and the port has put out another one. -/
theorem transferByte_reply (h : board.port.shifted = 0) :
    (transferByte game board tx).2 = board.port.register ↔
      board.clk = true ∨ board.port.out = bit board.port.register 7 := by
  have hseven : Shifted board tx 7 (Nat.repeat (Arduino.transferBit game) 7 { board, tx }) :=
    Shifted.repeat h (by omega)
  have hout := hseven.fallen_out (by omega)
  have hrx (i : Nat) (hi : i < 8) : bit (transferByte game board tx).2 i =
      if i = 7 then board.firstBit else bit board.port.register i := by
    have height : (transferByte game board tx).2 =
        (Arduino.transferBit game
          (Nat.repeat (Arduino.transferBit game) 7 { board, tx })).rx := rfl
    rw [height, transferBit_eq, bit_shiftIn, hout]
    by_cases hi0 : i = 0
    · subst hi0
      simp
    · rw [if_neg hi0, decide_eq_true hi, Bool.true_and, hseven.rx (i - 1) (by omega)]
      grind
  have hfirst : board.firstBit = bit board.port.register 7 ↔
      board.clk = true ∨ board.port.out = bit board.port.register 7 := by
    rw [Board.firstBit, Board.fallen]
    cases board.clk <;> simp [LinkPort.clockFalls]
  rw [← hfirst]
  constructor
  · intro heq
    rw [← heq, hrx 7 (by omega), if_pos rfl]
  · intro heq
    apply ext_bits
    intro i hi
    rw [hrx i hi]
    by_cases hi7 : i = 7
    · rw [if_pos hi7, hi7, heq]
    · rw [if_neg hi7]

/-- `transfer_byte` and the game exchange their bytes, and the game is interrupted once; only
where the clock is low before and the port has put out another first bit, the byte that comes back
is not the one the game had stored. -/
theorem bytes_exchanged (h : board.port.shifted = 0) :
    (transferByte game board tx).1.port.state = game.receive board.port.state tx ∧
      (transferByte game board tx).1.port.register =
        game.next (game.receive board.port.state tx) ∧
      (transferByte game board tx).1.port.shifted = 0 ∧
      (transferByte game board tx).1.clk = true ∧
      ((transferByte game board tx).2 = board.port.register ↔
        board.clk = true ∨ board.port.out = bit board.port.register 7) := by
  obtain ⟨hclk, hstate, hregister, hshifted⟩ := transferByte_port game tx h
  exact ⟨hstate, hregister, hshifted, hclk, transferByte_reply h⟩

/-- The line still shows 0 where the game has stored 0xD9. -/
theorem bytes_exchanged_stale :
    let game : Game Byte := { next := id, receive := fun _ rx => rx }
    let board : Board Byte :=
      { clk := false, so := false, port := { state := 0, register := 0xD9, out := false } }
    (transferByte game board 0x45).1.port.state = 0x45 ∧
      (transferByte game board 0x45).2 ≠ 0xD9 := by
  intro game board
  obtain ⟨hstate, _, _, _, hreply⟩ :=
    @bytes_exchanged _ game board 0x45 rfl
  refine ⟨hstate, fun heq => ?_⟩
  rcases hreply.mp heq with hclk | hout
  · cases hclk
  · have hbit : bit 0xD9 7 = true := by decide
    rw [show board.port.register = 0xD9 from rfl, hbit] at hout
    cases hout

end Shifted

end GbPlay.Arduino
