import GbPlay.Server.GameSession
import GbPlay.Server.Script
import GbPlay.Server.Tetris.Data

/-!
# The state handlers of a Tetris session

Each handler of `tetris.ts` is cut at its awaits.  A `Frame` is one await with
the local variables that are live across it; `resume` is the code from there to
the next await.  What a stretch of handler code does is a `Resumption`: the
session as it leaves it, the events it records and what it awaits next.
-/

namespace GbPlay.Server.Tetris.Handlers

open GbPlay.Server.Client GbPlay.Server.Script GbPlay.Server.Tetris.Data

structure TetrisGameSession extends GameSession where
  state : TetrisGameState := .waitingForPlayers
  client1WinCount : Nat := 0
  client2WinCount : Nat := 0
  deriving DecidableEq, Repr

inductive Frame
  | playersConnected
  | difficultyForward (lastDifficultyChangeTime : Int) (client1Difficulty client2Difficulty : Byte)
  | difficultyConfirm
  | sendGlobalData
  | startGame
  | playingSleep
  | playingForward (client1StatusByte client2StatusByte : Byte) (roundOver : Bool)
  | playingPoll
  | roundOverSleep
  | roundOverRestart (nextState : TetrisGameState)
  deriving DecidableEq, Repr

/-- What a step of the session does with its clients. -/
inductive Task
  | forAllClients (ops : List ClientOp)
  | forwardClientBytes
  deriving DecidableEq, Repr

/-- The history of a session.  Every byte exchanged carries the number of the
`forAllClients` or `forwardClientBytes` call it belongs to. -/
inductive Event
  | handlerStarted (state : TetrisGameState)
  | generated (garbageLineData pieceData : List Byte)
  | reset
  | roundCompleted (client1StatusByte client2StatusByte : Byte)
  | begun (step : Nat) (clients : List ClientId) (task : Task)
  | sent (step : Nat) (c : ClientId) (b : Byte)
  | answered (step : Nat) (c : ClientId) (b : Byte)
  | transferred (b₁ b₂ : Byte)
  | failed (step : Nat) (c : ClientId)
  | completed (step : Nat) (c : ClientId)
  | ended
  deriving DecidableEq, Repr

/-- What the handler awaits next, or that it has returned. -/
inductive Next
  | step (task : Task) (frame : Frame)
  | sleep (frame : Frame)
  | done
  deriving DecidableEq, Repr

def Next.frame (next : Next) : Option Frame :=
  match next with
  | .step _ frame | .sleep frame => some frame
  | .done => none

structure Resumption where
  session : TetrisGameSession
  events : List Event := []
  next : Next
  deriving DecidableEq, Repr

def forAllClients (s : TetrisGameSession) (ops : List ClientOp) (frame : Frame) : Resumption :=
  { session := s, next := .step (.forAllClients ops) frame }

def forwardClientBytes (s : TetrisGameSession) (frame : Frame) : Resumption :=
  { session := s, next := .step .forwardClientBytes frame }

/-- The handler returns after setting `this.state`. -/
def setState (s : TetrisGameSession) (state : TetrisGameState) : Resumption :=
  { session := { s with state := state }, next := .done }

/-! ## Waiting for players, music and difficulty -/

def handleWaitingForPlayers (s : TetrisGameSession) : Resumption :=
  if s.requiredClientsHaveJoined then setState s .playersConnected
  else { session := s, next := .done }

def musicType : Byte := TetrisCtrlByte.musicTypeA

def selectMusic : List ClientOp :=
  [.waitForByte TetrisCtrlByte.master TetrisCtrlByte.slave,
    .waitForByte musicType TetrisCtrlByte.readyForMusic,
    .exchangeByte TetrisCtrlByte.confirmMusic]

def handlePlayersConnected (s : TetrisGameSession) : Resumption :=
  forAllClients s selectMusic .playersConnected

def confirmDifficulty : List ClientOp :=
  [.waitForByte TetrisCtrlByte.confirmMenu TetrisCtrlByte.slave]

/-- The head of the forwarding loop at the clock reading `now`. -/
def difficultyLoop (s : TetrisGameSession) (lastDifficultyChangeTime : Int)
    (client1Difficulty client2Difficulty : Byte) (now : Int) : Resumption :=
  if now - lastDifficultyChangeTime < 5000 then
    forwardClientBytes s
      (.difficultyForward lastDifficultyChangeTime client1Difficulty client2Difficulty)
  else forAllClients s confirmDifficulty .difficultyConfirm

/-- The handler reads the clock twice before its first await. -/
def handleDifficultySelection (s : TetrisGameSession) (now₀ now₁ : Int) : Resumption :=
  let loop := difficultyLoop { s with client1WinCount := 0, client2WinCount := 0 } now₀ 0 0 now₁
  { loop with events := [.reset] }

/-! ## A round -/

def sendGlobalData (garbageLineData pieceData : List Byte) : List ClientOp :=
  [.waitForByte TetrisCtrlByte.master TetrisCtrlByte.slave,
    .sendBuffer garbageLineData,
    .waitForByte TetrisCtrlByte.master TetrisCtrlByte.slave,
    .sendBuffer pieceData]

def startSequence : List Byte := [0x30, 0x00, 0x02, 0x02, 0x20]

def handleSendingInitializationData (s : TetrisGameSession) (draws : Draws) : Resumption :=
  let garbage := generateGarbageLines draws
  let pieces := generatePieces garbage.2
  { session := s
    events := [.generated garbage.1 pieces.1]
    next := .step (.forAllClients (sendGlobalData garbage.1 pieces.1)) .sendGlobalData }

def handlePlaying (s : TetrisGameSession) : Resumption :=
  { session := s, next := .sleep .playingSleep }

def isGameEndingByte (b : Byte) : Bool :=
  b = TetrisCtrlByte.win || b = TetrisCtrlByte.lose

def notifyRoundEnd (roundEndPollByte : Byte) : List ClientOp :=
  [.waitForByte roundEndPollByte TetrisCtrlByte.readyForRoundEnd,
    .exchangeByte TetrisCtrlByte.beginRoundOverScreen]

/-- From the exit of the forwarding loop to the polling of both clients. -/
def finishRound (s : TetrisGameSession) (client1StatusByte client2StatusByte : Byte) :
    Resumption :=
  { events := [.roundCompleted client1StatusByte client2StatusByte]
    session :=
      if client1StatusByte = client2StatusByte then s
      else if client1StatusByte = TetrisCtrlByte.win ∨ client2StatusByte = TetrisCtrlByte.lose then
        { s with client1WinCount := s.client1WinCount + 1 }
      else { s with client2WinCount := s.client2WinCount + 1 }
    next := .step
      (.forAllClients (notifyRoundEnd
        (if client1StatusByte = client2StatusByte then client1StatusByte
          else TetrisCtrlByte.poll)))
      .playingPoll }

/-! ## Round over -/

def handleRoundOver (s : TetrisGameSession) : Resumption :=
  { session := s, next := .sleep .roundOverSleep }

def prepareRestart (expectedByte : Byte) : List ClientOp :=
  [.exchangeByte TetrisCtrlByte.confirmMenu,
    .waitForByte TetrisCtrlByte.poll TetrisCtrlByte.readyForRestart,
    .waitForByte TetrisCtrlByte.endRoundOverScreen expectedByte]

def restart (s : TetrisGameSession) : Resumption :=
  if s.client1WinCount < 4 ∧ s.client2WinCount < 4 then
    forAllClients s (prepareRestart TetrisCtrlByte.slave)
      (.roundOverRestart .sendingInitializationData)
  else forAllClients s (prepareRestart 0) (.roundOverRestart .difficultySelection)

/-! ## Dispatch -/

/-- `handleState`: the handler of the session's state, up to its first await. -/
def start (s : TetrisGameSession) (draws : Draws) (now₀ now₁ : Int) : Resumption :=
  match s.state with
  | .waitingForPlayers => handleWaitingForPlayers s
  | .playersConnected => handlePlayersConnected s
  | .difficultySelection => handleDifficultySelection s now₀ now₁
  | .sendingInitializationData => handleSendingInitializationData s draws
  | .playing => handlePlaying s
  | .roundOver => handleRoundOver s

/-- The code after an await that has been fulfilled, at the clock reading `now`. -/
def resume (s : TetrisGameSession) (now : Int) : Frame → Resumption
  | .playersConnected => setState s .difficultySelection
  | .difficultyForward lastDifficultyChangeTime client1Difficulty client2Difficulty =>
      difficultyLoop s lastDifficultyChangeTime client1Difficulty client2Difficulty now
  | .difficultyConfirm => setState s .sendingInitializationData
  | .sendGlobalData => forAllClients s [.sendBuffer startSequence] .startGame
  | .startGame => setState s .playing
  | .playingSleep => forwardClientBytes s (.playingForward 0 0 false)
  | .playingForward client1StatusByte client2StatusByte roundOver =>
      if roundOver then finishRound s client1StatusByte client2StatusByte
      else forwardClientBytes s (.playingForward client1StatusByte client2StatusByte roundOver)
  | .playingPoll => setState s .roundOver
  | .roundOverSleep => restart s
  | .roundOverRestart nextState => setState s nextState

/-- The `onTransfer` callback of the forwarding loops, on the variables in the frame. -/
def onTransfer (client1Byte client2Byte : Byte) (now : Int) : Frame → Frame
  | .difficultyForward lastDifficultyChangeTime client1Difficulty client2Difficulty =>
      if client1Byte ≠ client1Difficulty ∨ client2Byte ≠ client2Difficulty then
        .difficultyForward now client1Byte client2Byte
      else .difficultyForward lastDifficultyChangeTime client1Difficulty client2Difficulty
  | .playingForward client1StatusByte client2StatusByte roundOver =>
      .playingForward
        (if isGameEndingByte client1Byte then client1Byte else client1StatusByte)
        (if isGameEndingByte client2Byte then client2Byte else client2StatusByte)
        (roundOver || (client1Byte = TetrisCtrlByte.readyForRoundEnd &&
          client2Byte = TetrisCtrlByte.readyForRoundEnd))
  | frame => frame

/-! ## What every handler leaves alone -/

/-- An event of the session itself, not of one of its clients. -/
def Event.silent : Event → Bool
  | .handlerStarted _ | .generated _ _ | .reset | .roundCompleted _ _ | .transferred _ _
  | .ended => true
  | .begun _ _ _ | .sent _ _ _ | .answered _ _ _ | .failed _ _ | .completed _ _ => false

/-- A handler changes neither the clients of the session nor whether it has ended. -/
theorem start_toGameSession (s : TetrisGameSession) (draws : Draws) (now₀ now₁ : Int) :
    (start s draws now₀ now₁).session.toGameSession = s.toGameSession := by
  unfold start
  cases s.state
  case waitingForPlayers =>
      simp only [handleWaitingForPlayers]
      split <;> rfl
  case difficultySelection =>
      simp only [handleDifficultySelection, difficultyLoop]
      split <;> rfl
  all_goals rfl

theorem resume_toGameSession (s : TetrisGameSession) (now : Int) (frame : Frame) :
    (resume s now frame).session.toGameSession = s.toGameSession := by
  cases frame with
  | difficultyForward t d₁ d₂ =>
      simp only [resume, difficultyLoop]
      split <;> rfl
  | playingForward s₁ s₂ roundOver =>
      simp only [resume, finishRound]
      cases roundOver
      · rfl
      · simp only [if_true]
        split
        · rfl
        · split <;> rfl
  | roundOverSleep =>
      simp only [resume, restart]
      split <;> rfl
  | _ => rfl

theorem start_silent (s : TetrisGameSession) (draws : Draws) (now₀ now₁ : Int) :
    ∀ e ∈ (start s draws now₀ now₁).events, e.silent = true := by
  unfold start
  cases s.state
  case waitingForPlayers =>
      simp only [handleWaitingForPlayers]
      split <;> simp [setState]
  case difficultySelection => simp [handleDifficultySelection, Event.silent]
  case sendingInitializationData => simp [handleSendingInitializationData, Event.silent]
  all_goals simp [handlePlayersConnected, handlePlaying, handleRoundOver, forAllClients]

theorem resume_silent (s : TetrisGameSession) (now : Int) (frame : Frame) :
    ∀ e ∈ (resume s now frame).events, e.silent = true := by
  cases frame with
  | difficultyForward t d₁ d₂ =>
      simp only [resume, difficultyLoop]
      split <;> simp [forwardClientBytes, forAllClients]
  | playingForward s₁ s₂ roundOver =>
      cases roundOver <;> simp [resume, finishRound, forwardClientBytes, Event.silent]
  | roundOverSleep =>
      simp only [resume, restart]
      split <;> simp [forAllClients]
  | _ => simp [resume, setState, forAllClients, forwardClientBytes]

end GbPlay.Server.Tetris.Handlers
