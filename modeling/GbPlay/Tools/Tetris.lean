import GbPlay.Library.Sampling
import GbPlay.Server.Tetris.Data

/-!
# Tetris on the TCP serial bridge

`game_protocols/tetris.py`, and the part of `GBSerialTCPServer.run` that puts both
Game Boys into slave mode (`gb_tcp.py`).  The results of `random.random()` and
`random.randint` are represented by what the code reads off them, as those of
`Math.random()` are.

`data_handler` sends the data of its initializer exactly once, however often the
client has to be polled.  But every client gets an initializer of its own.
-/

namespace GbPlay.Tools.Tetris

open GbPlay.Library.Sampling
open GbPlay.Server.Client (Byte)
open GbPlay.Server.Tetris.Data (Draws)

/-! ## Random data -/

def solidTileFlag : Byte := 0x80
def emptyTileMagic : Byte := 0x2F

/-- `random.randint(0, 7) | SOLID_TILE_FLAG` -/
def solidTile (n : Fin 8) : Byte := UInt8.ofNat n ||| solidTileFlag

/-- `n` more cells of `_initial_garbage`. -/
def garbageCells : Nat → Draws → List Byte × Draws
  | 0, ds => ([], ds)
  | n + 1, ds =>
      if (ds 0).half then
        let rest := garbageCells n (ds.skip 2)
        (solidTile (ds 1).tile :: rest.1, rest.2)
      else
        let rest := garbageCells n (ds.skip 1)
        (emptyTileMagic :: rest.1, rest.2)

/-- `random.randint(0, 6) * 4` -/
def candidate (n : Fin 7) : Byte := UInt8.ofNat n * 4

/-- The test that avoids repeats. -/
def isAccepted (prevPiece1 prevPiece2 nextPiece : Byte) : Bool :=
  (nextPiece ||| prevPiece1 ||| prevPiece2) &&& 0xFC ≠ prevPiece2

/-- The loop over the attempts at a piece, with `n` of them left. -/
def attempts (prevPiece1 prevPiece2 : Byte) : Nat → Byte → Draws → Byte × Draws
  | 0, nextPiece, ds => (nextPiece, ds)
  | n + 1, _, ds =>
      let nextPiece := candidate (ds 0).piece
      if isAccepted prevPiece1 prevPiece2 nextPiece then (nextPiece, ds.skip 1)
      else attempts prevPiece1 prevPiece2 n nextPiece (ds.skip 1)

/-- `n` more of the `_pieces`. -/
def nextPieces : Nat → Byte → Byte → Draws → List Byte × Draws
  | 0, _, _, ds => ([], ds)
  | n + 1, prevPiece1, prevPiece2, ds =>
      let next := attempts prevPiece1 prevPiece2 3 0 ds
      let rest := nextPieces n next.1 prevPiece1 next.2
      (next.1 :: rest.1, rest.2)

/-! ## Equal draws -/

/-- The draws fill the next `n` cells in the same way. -/
def SameCells : Nat → Draws → Draws → Prop
  | 0, _, _ => True
  | n + 1, ds, ds' =>
      (ds 0).half = (ds' 0).half ∧
        if (ds 0).half then
          (ds 1).tile = (ds' 1).tile ∧ SameCells n (ds.skip 2) (ds'.skip 2)
        else SameCells n (ds.skip 1) (ds'.skip 1)

/-- The draw that is taken for a piece, if there are `n` attempts after the first. -/
def taken (prevPiece1 prevPiece2 : Byte) : Nat → Draws → Nat
  | 0, _ => 0
  | n + 1, ds =>
      if isAccepted prevPiece1 prevPiece2 (candidate (ds 0).piece) then 0
      else 1 + taken prevPiece1 prevPiece2 n (ds.skip 1)

/-- The draws that are taken for the next `n` pieces are the same. -/
def SamePieces : Nat → Byte → Byte → Draws → Draws → Prop
  | 0, _, _, _, _ => True
  | n + 1, prevPiece1, prevPiece2, ds, ds' =>
      let i := taken prevPiece1 prevPiece2 2 ds
      let j := taken prevPiece1 prevPiece2 2 ds'
      (ds i).piece = (ds' j).piece ∧
        SamePieces n (candidate (ds i).piece) prevPiece1 (ds.skip (i + 1)) (ds'.skip (j + 1))

theorem solidTile_injective : Function.Injective solidTile := by
  intro m n
  revert m n
  decide

theorem solidTile_ne_emptyTileMagic (n : Fin 8) : solidTile n ≠ emptyTileMagic := by
  revert n
  decide

theorem candidate_injective : Function.Injective candidate := by
  intro m n
  revert m n
  decide

theorem garbageCells_eq_iff {n : Nat} {ds ds' : Draws} :
    (garbageCells n ds).1 = (garbageCells n ds').1 ↔ SameCells n ds ds' := by
  induction n generalizing ds ds' with
  | zero => exact iff_of_true rfl trivial
  | succ n ih =>
      rw [garbageCells, garbageCells, SameCells]
      cases hcell : (ds 0).half <;> cases hcell' : (ds' 0).half
      case false.false => simp [ih]
      case false.true => simp [(solidTile_ne_emptyTileMagic _).symm]
      case true.false => simp [solidTile_ne_emptyTileMagic]
      case true.true => simp [ih, solidTile_injective.eq_iff]

theorem skip_skip (ds : Draws) (m n : Nat) : (ds.skip m).skip n = ds.skip (m + n) := by
  funext i
  simp only [Draws.skip, Nat.add_assoc]

theorem attempts_succ (prevPiece1 prevPiece2 : Byte) (n : Nat) (b : Byte) (ds : Draws) :
    attempts prevPiece1 prevPiece2 (n + 1) b ds =
      (candidate (ds (taken prevPiece1 prevPiece2 n ds)).piece,
        ds.skip (taken prevPiece1 prevPiece2 n ds + 1)) := by
  induction n generalizing b ds with
  | zero =>
      rw [attempts]
      split <;> rfl
  | succ n ih =>
      rw [attempts, taken]
      split
      · rfl
      · rw [ih, skip_skip, ← Nat.add_assoc]
        rfl

theorem half_eq_of_sameCells {n : Nat} {ds ds' : Draws} (h : SameCells (n + 1) ds ds') :
    (ds 0).half = (ds' 0).half :=
  h.1

theorem nextPieces_eq_iff {n : Nat} {prevPiece1 prevPiece2 : Byte} {ds ds' : Draws} :
    (nextPieces n prevPiece1 prevPiece2 ds).1 = (nextPieces n prevPiece1 prevPiece2 ds').1 ↔
      SamePieces n prevPiece1 prevPiece2 ds ds' := by
  induction n generalizing prevPiece1 prevPiece2 ds ds' with
  | zero => exact iff_of_true rfl trivial
  | succ n ih =>
      simp only [nextPieces, SamePieces, attempts_succ, List.cons.injEq,
        candidate_injective.eq_iff]
      apply and_congr_right
      intro hpiece
      rw [hpiece, ih]

/-! ## The link initializer -/

inductive TetrisGameState
  | confirmingRoles1
  | selectingMusic
  | selectingDifficulty
  | confirmingRoles2
  | sendingInitialGarbage
  | confirmingRoles3
  | sendingPieces
  deriving DecidableEq, Repr

structure TetrisLinkInitializer where
  state : TetrisGameState := .confirmingRoles1
  transferCounter : Nat := 0
  lastByteReceived : Option Byte := none
  initialGarbage : List Byte
  pieces : List Byte
  deriving DecidableEq, Repr

/-- `get_link_initializer` -/
def getLinkInitializer (ds : Draws) : TetrisLinkInitializer × Draws :=
  let initialGarbage := garbageCells 100 ds
  let pieces := nextPieces 256 0 0 initialGarbage.2
  ({ initialGarbage := initialGarbage.1, pieces := pieces.1 }, pieces.2)

namespace TetrisLinkInitializer

def masterMagic : Byte := 0x29
def slaveMagic : Byte := 0x55
def musicAMagic : Byte := 0x1C
def waitingForMusicMagic : Byte := 0x39
def confirmMusicSelectionMagic : Byte := 0x50
def confirmDifficultySelectionMagic : Byte := 0x60

def selectMusic (s : TetrisLinkInitializer) (data : Option Byte) : TetrisLinkInitializer × Byte :=
  if data = some waitingForMusicMagic then
    ({ s with state := .selectingDifficulty }, confirmMusicSelectionMagic)
  else (s, musicAMagic)

/-- The byte to send, or Python's `None`; `none` when an index is out of range. -/
def dataHandler (s : TetrisLinkInitializer) (data : Option Byte) :
    Option (TetrisLinkInitializer × Option Byte) :=
  let s := { s with lastByteReceived := data }
  match s.state with
  | .confirmingRoles1 =>
      if data = some slaveMagic then
        -- goes on in the next state, with the same byte
        let (s, toSend) := selectMusic { s with state := .selectingMusic } data
        some (s, some toSend)
      else some (s, some masterMagic)
  | .selectingMusic =>
      let (s, toSend) := selectMusic s data
      some (s, some toSend)
  | .selectingDifficulty =>
      if data = some 0 then
        some ({ s with state := .confirmingRoles2 }, some confirmDifficultySelectionMagic)
      else some (s, some 0)
  | .confirmingRoles2 =>
      if data = some slaveMagic then do
        let toSend ← s.initialGarbage[0]?
        some ({ s with state := .sendingInitialGarbage, transferCounter := 1 }, some toSend)
      else some (s, some masterMagic)
  | .sendingInitialGarbage => do
      let toSend ← s.initialGarbage[s.transferCounter]?
      let s := { s with transferCounter := s.transferCounter + 1 }
      if s.transferCounter = s.initialGarbage.length then
        some ({ s with state := .confirmingRoles3 }, some toSend)
      else some (s, some toSend)
  | .confirmingRoles3 =>
      if data = some slaveMagic then do
        let toSend ← s.pieces[0]?
        some ({ s with state := .sendingPieces, transferCounter := 1 }, some toSend)
      else some (s, some masterMagic)
  | .sendingPieces =>
      if s.transferCounter = s.pieces.length then some (s, none)
      else do
        let toSend ← s.pieces[s.transferCounter]?
        some ({ s with transferCounter := s.transferCounter + 1 }, some toSend)

end TetrisLinkInitializer

/-! ## Entering slave mode -/

/-- A byte that has been sent, and the states in which `data_handler` was called for it
and returned it. -/
structure Sent where
  before : TetrisGameState
  after : TetrisGameState
  byte : Byte
  deriving DecidableEq, Repr

/-- Taken from `_initial_garbage`. -/
def Sent.isGarbage (x : Sent) : Bool :=
  x.before = .sendingInitialGarbage ∨ x.after = .sendingInitialGarbage

/-- Taken from `_pieces`. -/
def Sent.isPiece (x : Sent) : Bool := x.after = .sendingPieces

/-- The loop of `_enter_slave_mode`, on the replies of the client up to where the
connection ends: what is sent until the initializer is done.  `none` when the loop
raises. -/
def exchangeAll (s : TetrisLinkInitializer) (response : Option Byte) :
    List Byte → Option (List Sent × Option Byte)
  | [] =>
      match s.dataHandler response with
      | some (s', none) => some ([], s'.lastByteReceived)
      | _ => none
  | reply :: replies =>
      match s.dataHandler response with
      | none => none
      | some (s', none) => some ([], s'.lastByteReceived)
      | some (s', some toSend) =>
          match exchangeAll s' (some reply) replies with
          | none => none
          | some (sent, last) => some (⟨s.state, s'.state, toSend⟩ :: sent, last)

/-- `_enter_slave_mode`; with the draws it leaves. -/
def enterSlaveMode (ds : Draws) (replies : List Byte) :
    Option (List Sent × Option Byte) × Draws :=
  let (linkInitializer, ds) := getLinkInitializer ds
  (exchangeAll linkInitializer none replies, ds)

/-- `run`, up to where both Game Boys are in slave mode. -/
def enterSlaveModes (ds : Draws) (replies1 replies2 : List Byte) :
    Option (List Sent × List Sent) :=
  let (client1, ds) := enterSlaveMode ds replies1
  let (client2, _) := enterSlaveMode ds replies2
  match client1, client2 with
  | some (sent1, _), some (sent2, _) => some (sent1, sent2)
  | _, _ => none

def garbageSent (sent : List Sent) : List Byte := (sent.filter Sent.isGarbage).map Sent.byte

def piecesSent (sent : List Sent) : List Byte := (sent.filter Sent.isPiece).map Sent.byte

/-! ## What a client is sent -/

namespace TetrisLinkInitializer

/-- The garbage that has not been sent yet. -/
def garbageLeft (s : TetrisLinkInitializer) : List Byte :=
  match s.state with
  | .confirmingRoles1 | .selectingMusic | .selectingDifficulty | .confirmingRoles2 =>
      s.initialGarbage
  | .sendingInitialGarbage => s.initialGarbage.drop s.transferCounter
  | .confirmingRoles3 | .sendingPieces => []

/-- The pieces that have not been sent yet. -/
def piecesLeft (s : TetrisLinkInitializer) : List Byte :=
  match s.state with
  | .sendingPieces => s.pieces.drop s.transferCounter
  | _ => s.pieces

theorem drop_of_getElem? {α : Type*} {l : List α} {k : Nat} {a : α} (h : l[k]? = some a) :
    l.drop k = a :: l.drop (k + 1) := by
  obtain ⟨hk, rfl⟩ := List.getElem?_eq_some_iff.mp h
  exact List.drop_eq_getElem_cons hk

/-- A byte is sent: it is the next one of the garbage, of the pieces or of neither. -/
theorem dataHandler_sends {s s' : TetrisLinkInitializer} {data : Option Byte} {toSend : Byte}
    (h : s.dataHandler data = some (s', some toSend)) :
    s.garbageLeft = garbageSent [⟨s.state, s'.state, toSend⟩] ++ s'.garbageLeft ∧
      s.piecesLeft = piecesSent [⟨s.state, s'.state, toSend⟩] ++ s'.piecesLeft := by
  obtain ⟨state, counter, last, garbage, pieces⟩ := s
  cases state with
  | confirmingRoles1 =>
      simp only [dataHandler, selectMusic] at h
      split at h
      · split at h <;> cases h <;> exact ⟨rfl, rfl⟩
      · cases h
        exact ⟨rfl, rfl⟩
  | selectingMusic =>
      simp only [dataHandler, selectMusic] at h
      split at h <;> cases h <;> exact ⟨rfl, rfl⟩
  | selectingDifficulty =>
      simp only [dataHandler] at h
      split at h <;> cases h <;> exact ⟨rfl, rfl⟩
  | confirmingRoles2 =>
      simp only [dataHandler] at h
      split at h
      · obtain ⟨b, hb, heq⟩ := Option.bind_eq_some_iff.mp h
        cases heq
        exact ⟨drop_of_getElem? hb, rfl⟩
      · cases h
        exact ⟨rfl, rfl⟩
  | sendingInitialGarbage =>
      simp only [dataHandler] at h
      obtain ⟨b, hb, heq⟩ := Option.bind_eq_some_iff.mp h
      have hdrop := drop_of_getElem? hb
      split at heq
      · rename_i hlength
        cases heq
        rw [hlength, List.drop_length] at hdrop
        exact ⟨hdrop, rfl⟩
      · cases heq
        exact ⟨hdrop, rfl⟩
  | confirmingRoles3 =>
      simp only [dataHandler] at h
      split at h
      · obtain ⟨b, hb, heq⟩ := Option.bind_eq_some_iff.mp h
        cases heq
        exact ⟨rfl, drop_of_getElem? hb⟩
      · cases h
        exact ⟨rfl, rfl⟩
  | sendingPieces =>
      simp only [dataHandler] at h
      split at h
      · cases h
      · obtain ⟨b, hb, heq⟩ := Option.bind_eq_some_iff.mp h
        cases heq
        exact ⟨rfl, drop_of_getElem? hb⟩

/-- The initializer is done only when all pieces have been sent. -/
theorem state_of_done {s s' : TetrisLinkInitializer} {data : Option Byte}
    (h : s.dataHandler data = some (s', none)) :
    s.state = .sendingPieces ∧ s.transferCounter = s.pieces.length := by
  obtain ⟨state, counter, last, garbage, pieces⟩ := s
  cases state with
  | sendingPieces =>
      simp only [dataHandler] at h
      split at h
      · rename_i hlength
        exact ⟨rfl, hlength⟩
      · obtain ⟨b, hb, heq⟩ := Option.bind_eq_some_iff.mp h
        cases heq
  | _ =>
      simp only [dataHandler, Option.bind_eq_bind] at h
      grind

theorem nothing_left_of_done {s s' : TetrisLinkInitializer} {data : Option Byte}
    (h : s.dataHandler data = some (s', none)) : s.garbageLeft = [] ∧ s.piecesLeft = [] := by
  obtain ⟨hstate, hcounter⟩ := state_of_done h
  simp [garbageLeft, piecesLeft, hstate, hcounter]

end TetrisLinkInitializer

theorem garbageSent_cons (x : Sent) (sent : List Sent) :
    garbageSent (x :: sent) = garbageSent [x] ++ garbageSent sent := by
  simp [garbageSent, List.filter_cons]
  split <;> rfl

theorem piecesSent_cons (x : Sent) (sent : List Sent) :
    piecesSent (x :: sent) = piecesSent [x] ++ piecesSent sent := by
  simp [piecesSent, List.filter_cons]
  split <;> rfl

/-- However often the client is polled, it is sent what is left, once and in order. -/
theorem exchangeAll_sends {replies : List Byte} {s : TetrisLinkInitializer}
    {response last : Option Byte} {sent : List Sent}
    (h : exchangeAll s response replies = some (sent, last)) :
    garbageSent sent = s.garbageLeft ∧ piecesSent sent = s.piecesLeft := by
  induction replies generalizing s response sent with
  | nil =>
      rw [exchangeAll] at h
      split at h
      · rename_i s' hdone
        cases h
        obtain ⟨hgarbage, hpieces⟩ := TetrisLinkInitializer.nothing_left_of_done hdone
        exact ⟨hgarbage.symm, hpieces.symm⟩
      · cases h
  | cons reply replies ih =>
      rw [exchangeAll] at h
      split at h
      · cases h
      · rename_i s' hdone
        cases h
        obtain ⟨hgarbage, hpieces⟩ := TetrisLinkInitializer.nothing_left_of_done hdone
        exact ⟨hgarbage.symm, hpieces.symm⟩
      · rename_i s' toSend hsends
        obtain ⟨hgarbage, hpieces⟩ := TetrisLinkInitializer.dataHandler_sends hsends
        split at h <;> cases h
        rename_i rest _ hrest
        obtain ⟨hgarbage', hpieces'⟩ := ih hrest
        constructor
        · rw [garbageSent_cons, hgarbage', hgarbage]
        · rw [piecesSent_cons, hpieces', hpieces]

/-! ## Clients that are put into slave mode -/

open TetrisLinkInitializer

theorem length_garbageCells (n : Nat) (ds : Draws) : (garbageCells n ds).1.length = n := by
  induction n generalizing ds with
  | zero => rfl
  | succ n ih =>
      rw [garbageCells]
      split <;> simp [ih]

theorem length_nextPieces (n : Nat) (prevPiece1 prevPiece2 : Byte) (ds : Draws) :
    (nextPieces n prevPiece1 prevPiece2 ds).1.length = n := by
  induction n generalizing prevPiece1 prevPiece2 ds with
  | zero => rfl
  | succ n ih => simp [nextPieces, ih]

theorem exchangeAll_cons {s s' : TetrisLinkInitializer} {response : Option Byte} {toSend : Byte}
    (h : s.dataHandler response = some (s', some toSend)) (reply : Byte) (replies : List Byte) :
    (exchangeAll s response (reply :: replies)).isSome =
      (exchangeAll s' (some reply) replies).isSome := by
  rw [exchangeAll, h]
  cases hrest : exchangeAll s' (some reply) replies <;> simp [hrest]

/-- While pieces are sent the replies do not matter. -/
theorem exchangeAll_pieces {replies : List Byte} {s : TetrisLinkInitializer}
    (hstate : s.state = .sendingPieces)
    (hcounter : s.transferCounter + replies.length = s.pieces.length) (response : Option Byte) :
    (exchangeAll s response replies).isSome = true := by
  induction replies generalizing s response with
  | nil =>
      have hdone : s.dataHandler response =
          some ({ s with lastByteReceived := response }, none) := by
        simp [dataHandler, hstate, ← hcounter]
      rw [exchangeAll, hdone]
      rfl
  | cons reply replies ih =>
      rw [List.length_cons] at hcounter
      have hlt : s.transferCounter < s.pieces.length := by omega
      have hsends : s.dataHandler response = some ({ s with
          transferCounter := s.transferCounter + 1, lastByteReceived := response },
            some s.pieces[s.transferCounter]) := by
        simp [dataHandler, hstate, hlt, Nat.ne_of_lt hlt]
      rw [exchangeAll_cons hsends]
      apply ih
      · exact hstate
      · simp only
        omega

/-- The client has confirmed the roles for the last time. -/
theorem exchangeAll_confirmed {replies : List Byte} {s : TetrisLinkInitializer}
    (hstate : s.state = .confirmingRoles3) (hlength : replies.length = s.pieces.length)
    (hpos : 0 < s.pieces.length) : (exchangeAll s (some slaveMagic) replies).isSome = true := by
  obtain ⟨reply, replies, rfl⟩ := List.exists_cons_of_length_pos (hlength ▸ hpos)
  have hsends : s.dataHandler (some slaveMagic) = some ({ s with
      state := .sendingPieces, transferCounter := 1, lastByteReceived := some slaveMagic },
        some s.pieces[0]) := by
    simp [dataHandler, hstate, hpos]
  rw [exchangeAll_cons hsends]
  apply exchangeAll_pieces
  · rfl
  · rw [← hlength, List.length_cons, Nat.add_comm]

/-- While garbage is sent only the reply to its last byte matters. -/
theorem exchangeAll_garbage {replies rest : List Byte} {s : TetrisLinkInitializer}
    (hstate : s.state = .sendingInitialGarbage)
    (hcounter : s.transferCounter + replies.length + 1 = s.initialGarbage.length)
    (hrest : rest.length = s.pieces.length) (hpos : 0 < s.pieces.length)
    (response : Option Byte) :
    (exchangeAll s response (replies ++ slaveMagic :: rest)).isSome = true := by
  induction replies generalizing s response with
  | nil =>
      rw [List.length_nil, Nat.add_zero] at hcounter
      have hsends : s.dataHandler response = some ({ s with
          state := .confirmingRoles3, transferCounter := s.transferCounter + 1,
          lastByteReceived := response }, some (s.initialGarbage[s.transferCounter])) := by
        simp [dataHandler, hstate, ← hcounter]
      rw [List.nil_append, exchangeAll_cons hsends]
      exact exchangeAll_confirmed rfl hrest hpos
  | cons reply replies ih =>
      rw [List.length_cons] at hcounter
      have hlt : s.transferCounter < s.initialGarbage.length := by omega
      have hmore : s.transferCounter + 1 ≠ s.initialGarbage.length := by omega
      have hsends : s.dataHandler response = some ({ s with
          transferCounter := s.transferCounter + 1, lastByteReceived := response },
            some s.initialGarbage[s.transferCounter]) := by
        simp [dataHandler, hstate, hlt, hmore]
      rw [List.cons_append, exchangeAll_cons hsends]
      apply ih
      · exact hstate
      · simp only
        omega
      · exact hrest
      · exact hpos

/-- A client that goes along with the menus; what it replies to the data does not
matter. -/
def obedientReplies (toGarbage toPieces : List Byte) : List Byte :=
  [slaveMagic, waitingForMusicMagic, 0, slaveMagic] ++ (toGarbage ++ slaveMagic :: toPieces)

/-- Whatever the random draws are, such a client is put into slave mode. -/
theorem enterSlaveMode_obedient (ds : Draws) {toGarbage toPieces : List Byte}
    (hgarbage : toGarbage.length = 99) (hpieces : toPieces.length = 256) :
    (enterSlaveMode ds (obedientReplies toGarbage toPieces)).1.isSome = true := by
  let s := (getLinkInitializer ds).1
  have hlengthGarbage : s.initialGarbage.length = 100 := length_garbageCells 100 ds
  have hlengthPieces : s.pieces.length = 256 := length_nextPieces 256 0 0 _
  obtain ⟨reply, toGarbage, rfl⟩ : ∃ reply rest, toGarbage = reply :: rest :=
    List.exists_cons_of_length_eq_add_one hgarbage
  let confirming : TetrisLinkInitializer := { s with
    state := .confirmingRoles2, lastByteReceived := some 0 }
  have hmenus : (enterSlaveMode ds (obedientReplies (reply :: toGarbage) toPieces)).1.isSome =
      (exchangeAll confirming (some slaveMagic)
        (reply :: (toGarbage ++ slaveMagic :: toPieces))).isSome := by
    change (exchangeAll s none (_ :: _ :: _ :: _ :: _)).isSome = _
    rw [exchangeAll_cons rfl, exchangeAll_cons rfl, exchangeAll_cons rfl, exchangeAll_cons rfl]
    rfl
  have hsends : confirming.dataHandler (some slaveMagic) = some ({ s with
      state := .sendingInitialGarbage, transferCounter := 1, lastByteReceived := some slaveMagic },
        some s.initialGarbage[0]) := by
    simp [dataHandler, confirming, hlengthGarbage]
  rw [hmenus, exchangeAll_cons hsends]
  rw [List.length_cons] at hgarbage
  apply exchangeAll_garbage
  · rfl
  · simp only
    omega
  · rw [hpieces, ← hlengthPieces]
  · change 0 < s.pieces.length
    omega

theorem enterSlaveModes_obedient (ds : Draws) {toGarbage toPieces : List Byte}
    (hgarbage : toGarbage.length = 99) (hpieces : toPieces.length = 256) :
    ∃ sent1 sent2, enterSlaveModes ds (obedientReplies toGarbage toPieces)
      (obedientReplies toGarbage toPieces) = some (sent1, sent2) := by
  have hclient1 := enterSlaveMode_obedient ds hgarbage hpieces
  have hclient2 := enterSlaveMode_obedient (getLinkInitializer ds).2 hgarbage hpieces
  obtain ⟨⟨sent1, last1⟩, hsent1⟩ := Option.isSome_iff_exists.mp hclient1
  obtain ⟨⟨sent2, last2⟩, hsent2⟩ := Option.isSome_iff_exists.mp hclient2
  refine ⟨sent1, sent2, ?_⟩
  have hrest : (enterSlaveMode ds (obedientReplies toGarbage toPieces)).2 =
      (getLinkInitializer ds).2 := rfl
  simp only [enterSlaveModes, hsent1, hrest, hsent2]

/-! ## How many draws are used -/

def cellDraws : Nat → Draws → Nat
  | 0, _ => 0
  | n + 1, ds =>
      if (ds 0).half then 2 + cellDraws n (ds.skip 2) else 1 + cellDraws n (ds.skip 1)

def pieceDraws : Nat → Byte → Byte → Draws → Nat
  | 0, _, _, _ => 0
  | n + 1, prevPiece1, prevPiece2, ds =>
      let i := taken prevPiece1 prevPiece2 2 ds
      i + 1 + pieceDraws n (candidate (ds i).piece) prevPiece1 (ds.skip (i + 1))

theorem le_cellDraws (n : Nat) (ds : Draws) : n ≤ cellDraws n ds := by
  induction n generalizing ds with
  | zero => exact Nat.le_refl 0
  | succ n ih =>
      have hone := ih (ds.skip 1)
      have htwo := ih (ds.skip 2)
      rw [cellDraws]
      split <;> omega

theorem consumes_garbageCells (n : Nat) (ds : Draws) :
    Consumes (garbageCells n) ds (cellDraws n ds) := by
  induction n generalizing ds with
  | zero => exact consumes_zero (fun _ => rfl) ds
  | succ n ih =>
      rw [cellDraws]
      split
      · rename_i hhalf
        refine (ih (ds.skip 2)).after (h := fun cells => solidTile (ds 1).tile :: cells) ?_
        intro ds' hagree
        rw [garbageCells, hagree 0 (by omega), hagree 1 (by omega), if_pos hhalf]
        rfl
      · rename_i hhalf
        refine (ih (ds.skip 1)).after (h := fun cells => emptyTileMagic :: cells) ?_
        intro ds' hagree
        rw [garbageCells, hagree 0 (by omega), if_neg hhalf]
        rfl

/-- Only the draws up to the one that is taken are looked at. -/
theorem taken_congr {prevPiece1 prevPiece2 : Byte} {n : Nat} {ds ds' : Draws}
    (h : ∀ i < taken prevPiece1 prevPiece2 n ds + 1, ds' i = ds i) :
    taken prevPiece1 prevPiece2 n ds' = taken prevPiece1 prevPiece2 n ds := by
  induction n generalizing ds ds' with
  | zero => rfl
  | succ n ih =>
      rw [taken] at h ⊢
      rw [taken, h 0 (by omega)]
      split
      · rfl
      · rename_i hnot
        rw [if_neg hnot] at h
        exact congrArg (1 + ·) (ih fun i hi => h (1 + i) (by omega))

theorem consumes_nextPieces (n : Nat) (prevPiece1 prevPiece2 : Byte) (ds : Draws) :
    Consumes (nextPieces n prevPiece1 prevPiece2) ds (pieceDraws n prevPiece1 prevPiece2 ds) := by
  induction n generalizing prevPiece1 prevPiece2 ds with
  | zero => exact consumes_zero (fun _ => rfl) ds
  | succ n ih =>
      let i := taken prevPiece1 prevPiece2 2 ds
      let nextPiece := candidate (ds i).piece
      refine (ih nextPiece prevPiece1 (ds.skip (i + 1))).after
        (h := fun pieces => nextPiece :: pieces) ?_
      intro ds' hagree
      rw [nextPieces, attempts_succ, taken_congr hagree, hagree _ (Nat.lt_succ_self _)]
      rfl

/-- The second initializer's draws are later results than those of the first one's cells. -/
theorem exists_skip (ds : Draws) : ∃ k, 100 ≤ k ∧ (getLinkInitializer ds).2 = ds.skip k := by
  let m := cellDraws 100 ds
  let n := pieceDraws 256 0 0 (ds.skip m)
  have hcells : (garbageCells 100 ds).2 = ds.skip m := (consumes_garbageCells 100 ds).rest
  have hpieces : (nextPieces 256 0 0 (ds.skip m)).2 = (ds.skip m).skip n :=
    (consumes_nextPieces 256 0 0 (ds.skip m)).rest
  refine ⟨m + n, Nat.le_trans (le_cellDraws 100 ds) (Nat.le_add_right m n), ?_⟩
  rw [getLinkInitializer, hcells, hpieces, skip_skip]

/-! ## The contract -/

/-- The draws for the second client's initializer decide what those for the first
client's do. -/
def SameDraws (ds ds' : Draws) : Prop :=
  SameCells 100 ds ds' ∧ SamePieces 256 0 0 (garbageCells 100 ds).2 (garbageCells 100 ds').2

theorem sameDraws_iff {ds ds' : Draws} : SameDraws ds ds' ↔
    (getLinkInitializer ds).1.initialGarbage = (getLinkInitializer ds').1.initialGarbage ∧
      (getLinkInitializer ds).1.pieces = (getLinkInitializer ds').1.pieces :=
  and_congr garbageCells_eq_iff.symm nextPieces_eq_iff.symm

theorem enterSlaveMode_sends {ds : Draws} {replies : List Byte} {sent : List Sent}
    {last : Option Byte} (h : (enterSlaveMode ds replies).1 = some (sent, last)) :
    garbageSent sent = (getLinkInitializer ds).1.initialGarbage ∧
      piecesSent sent = (getLinkInitializer ds).1.pieces :=
  exchangeAll_sends h

theorem enterSlaveModes_eq_some {ds : Draws} {replies1 replies2 : List Byte}
    {sent1 sent2 : List Sent} (h : enterSlaveModes ds replies1 replies2 = some (sent1, sent2)) :
    (∃ last, (enterSlaveMode ds replies1).1 = some (sent1, last)) ∧
      ∃ last, (enterSlaveMode (getLinkInitializer ds).2 replies2).1 = some (sent2, last) := by
  simp only [enterSlaveModes] at h
  split at h
  · rename_i sent1 last1 sent2 last2 hclient1 hclient2
    cases h
    exact ⟨⟨last1, hclient1⟩, last2, hclient2⟩
  · cases h

/-- Once both Game Boys are in slave mode, they have been sent the same garbage and the
same pieces if and only if the random draws for the two have decided the same. -/
theorem same_data_iff_sameDraws {ds : Draws} {replies1 replies2 : List Byte}
    {sent1 sent2 : List Sent} (h : enterSlaveModes ds replies1 replies2 = some (sent1, sent2)) :
    garbageSent sent1 = garbageSent sent2 ∧ piecesSent sent1 = piecesSent sent2 ↔
      SameDraws ds (getLinkInitializer ds).2 := by
  obtain ⟨⟨_, hclient1⟩, _, hclient2⟩ := enterSlaveModes_eq_some h
  obtain ⟨hgarbage1, hpieces1⟩ := enterSlaveMode_sends hclient1
  obtain ⟨hgarbage2, hpieces2⟩ := enterSlaveMode_sends hclient2
  rw [hgarbage1, hgarbage2, hpieces1, hpieces2, sameDraws_iff]

/-- Replies to the data that are all zero. -/
def zeroReplies : List Byte := obedientReplies (List.replicate 99 0) (List.replicate 256 0)

theorem enterSlaveModes_zeroReplies (ds : Draws) :
    ∃ sent1 sent2, enterSlaveModes ds zeroReplies zeroReplies = some (sent1, sent2) :=
  enterSlaveModes_obedient ds List.length_replicate List.length_replicate

theorem same_data_iff_sameDraws_constant :
    ∃ sent1 sent2,
      enterSlaveModes (fun _ => ⟨false, 0, 0⟩) zeroReplies zeroReplies = some (sent1, sent2) ∧
        garbageSent sent1 = garbageSent sent2 ∧ piecesSent sent1 = piecesSent sent2 := by
  let ds : Draws := fun _ => ⟨false, 0, 0⟩
  obtain ⟨sent1, sent2, hsent⟩ := enterSlaveModes_zeroReplies ds
  obtain ⟨k, _, hskip⟩ := exists_skip ds
  have hsame : SameDraws ds (getLinkInitializer ds).2 := by
    have hconstant : ds.skip k = ds := rfl
    rw [hskip, hconstant, sameDraws_iff]
    exact ⟨rfl, rfl⟩
  exact ⟨sent1, sent2, hsent, (same_data_iff_sameDraws hsent).mpr hsame⟩

/-- The first client's garbage is drawn empty, the first cell of the second client's is not. -/
theorem garbage_differs :
    ∃ sent1 sent2,
      enterSlaveModes (fun i => ⟨100 ≤ i, 0, 0⟩) zeroReplies zeroReplies =
        some (sent1, sent2) ∧ garbageSent sent1 ≠ garbageSent sent2 := by
  let ds : Draws := fun i => ⟨100 ≤ i, 0, 0⟩
  obtain ⟨sent1, sent2, hsent⟩ := enterSlaveModes_zeroReplies ds
  refine ⟨sent1, sent2, hsent, ?_⟩
  obtain ⟨⟨_, hclient1⟩, _, hclient2⟩ := enterSlaveModes_eq_some hsent
  rw [(enterSlaveMode_sends hclient1).1, (enterSlaveMode_sends hclient2).1]
  intro heq
  obtain ⟨k, hk, hskip⟩ := exists_skip ds
  rw [hskip] at heq
  have hcells : SameCells 100 ds (ds.skip k) := garbageCells_eq_iff.mp heq
  have hhalf := half_eq_of_sameCells hcells
  simp [ds, Draws.skip, hk] at hhalf

end GbPlay.Tools.Tetris
