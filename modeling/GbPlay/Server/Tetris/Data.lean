import GbPlay.Server.Client

/-!
# Tetris: states, control bytes and random data

The enumerations of `tetris.ts` and its two generators.  A result of
`Math.random()` is represented by what the code reads off it: whether it is at
least a half, and the number it selects out of eight and out of seven.
-/

namespace GbPlay.Server.Tetris.Data

open GbPlay.Server.Client

inductive TetrisGameState
  | waitingForPlayers
  | playersConnected
  | difficultySelection
  | sendingInitializationData
  | playing
  | roundOver
  deriving DecidableEq, Repr

namespace TetrisCtrlByte

def master : Byte := 0x29
def slave : Byte := 0x55
def solidTile : Byte := 0x80
def emptyTile : Byte := 0x2F
def readyForMusic : Byte := 0x39
def musicTypeA : Byte := 0x1C
def confirmMusic : Byte := 0x50
def confirmMenu : Byte := 0x60
def win : Byte := 0x77
def lose : Byte := 0xAA
def poll : Byte := 0x02
def readyForRoundEnd : Byte := 0x34
def readyForRestart : Byte := 0x27
def beginRoundOverScreen : Byte := 0x43
def endRoundOverScreen : Byte := 0x79

end TetrisCtrlByte

/-- `Math.random() >= 0.5`, `Math.floor(Math.random() * 8)` and
`Math.floor(Math.random() * 7)` of one result. -/
structure Draw where
  half : Bool
  tile : Fin 8
  piece : Fin 7
  deriving DecidableEq, Repr

/-- The results of `Math.random()` still to come. -/
abbrev Draws := Nat → Draw

def Draws.skip (ds : Draws) (n : Nat) : Draws := fun i => ds (n + i)

/-- `n` more tiles of the garbage lines. -/
def garbageTiles : Nat → Draws → List Byte × Draws
  | 0, ds => ([], ds)
  | n + 1, ds =>
      if (ds 0).half then
        let tile : Byte := UInt8.ofNat (ds 1).tile
        let rest := garbageTiles n (ds.skip 2)
        ((tile ||| TetrisCtrlByte.solidTile) :: rest.1, rest.2)
      else
        let rest := garbageTiles n (ds.skip 1)
        (TetrisCtrlByte.emptyTile :: rest.1, rest.2)

def generateGarbageLines (ds : Draws) : List Byte × Draws := garbageTiles 100 ds

/-- `pieces[i - k] || 0`, where `i` is the number of pieces so far. -/
def prevPiece (pieces : List Byte) (k : Nat) : Byte := pieces.reverse[k - 1]?.getD 0

/-- The `attempt` loop with `n` attempts left. -/
def choosePiece (prevPiece1 prevPiece2 : Byte) : Nat → Byte → Draws → Byte × Draws
  | 0, nextPiece, ds => (nextPiece, ds)
  | n + 1, _, ds =>
      let nextPiece : Byte := UInt8.ofNat (ds 0).piece * 4
      if (nextPiece ||| prevPiece1 ||| prevPiece2) &&& 0xFC ≠ prevPiece2 then
        (nextPiece, ds.skip 1)
      else choosePiece prevPiece1 prevPiece2 n nextPiece (ds.skip 1)

/-- `n` more pieces after `pieces`. -/
def appendPieces : Nat → List Byte → Draws → List Byte × Draws
  | 0, pieces, ds => (pieces, ds)
  | n + 1, pieces, ds =>
      let next := choosePiece (prevPiece pieces 1) (prevPiece pieces 2) 3 0 ds
      appendPieces n (pieces ++ [next.1]) next.2

def generatePieces (ds : Draws) : List Byte × Draws := appendPieces 256 [] ds

theorem length_garbageTiles (n : Nat) (ds : Draws) : (garbageTiles n ds).1.length = n := by
  induction n generalizing ds with
  | zero => rfl
  | succ n ih =>
      simp only [garbageTiles]
      split <;> simp [ih]

@[simp] theorem length_generateGarbageLines (ds : Draws) :
    (generateGarbageLines ds).1.length = 100 := length_garbageTiles 100 ds

theorem length_appendPieces (n : Nat) (pieces : List Byte) (ds : Draws) :
    (appendPieces n pieces ds).1.length = pieces.length + n := by
  induction n generalizing pieces ds with
  | zero => rfl
  | succ n ih =>
      simp only [appendPieces, ih, List.length_append, List.length_singleton]
      omega

@[simp] theorem length_generatePieces (ds : Draws) : (generatePieces ds).1.length = 256 := by
  simp [generatePieces, length_appendPieces]

end GbPlay.Server.Tetris.Data
