import GbPlay.Server.Tetris.Model

/-!
# The id of a session

No step of a session depends on its id, so what holds of the session that `init` starts
holds of a session with any id.
-/

namespace GbPlay.Server.Tetris.Renaming

open GbPlay.Library.Runs
open GbPlay.Server.Client GbPlay.Server.Script GbPlay.Server.Tetris.Data
open GbPlay.Server.Tetris.Handlers GbPlay.Server.Tetris.Model

/-- The same session with another id. -/
def renamed (id : String) (s : TetrisGameSession) : TetrisGameSession := { s with id }

def World.renamed (id : String) (w : World) : World :=
  { w with session := Renaming.renamed id w.session }

def Resumption.renamed (id : String) (r : Resumption) : Resumption :=
  { r with session := Renaming.renamed id r.session }

variable {id : String} {w w' : World}

@[simp] theorem renamed_handler : (World.renamed id w).handler = w.handler := rfl
@[simp] theorem renamed_running : (World.renamed id w).running = w.running := rfl
@[simp] theorem renamed_client : (World.renamed id w).client = w.client := rfl
@[simp] theorem renamed_joined : (World.renamed id w).joined = w.joined := rfl
@[simp] theorem renamed_session :
    (World.renamed id w).session = Renaming.renamed id w.session := rfl
@[simp] theorem renamed_next (r : Resumption) : (Resumption.renamed id r).next = r.next := rfl
@[simp] theorem renamed_ended (s : TetrisGameSession) : (renamed id s).ended = s.ended := rfl
@[simp] theorem renamed_isJoinable (s : TetrisGameSession) :
    (renamed id s).isJoinable = s.isJoinable := rfl
@[simp] theorem renamed_requiredClientsHaveJoined (s : TetrisGameSession) :
    (renamed id s).requiredClientsHaveJoined = s.requiredClientsHaveJoined := rfl
@[simp] theorem renamed_client1WinCount (s : TetrisGameSession) :
    (renamed id s).client1WinCount = s.client1WinCount := rfl
@[simp] theorem renamed_client2WinCount (s : TetrisGameSession) :
    (renamed id s).client2WinCount = s.client2WinCount := rfl
@[simp] theorem renamed_forwardedClients (s : TetrisGameSession) :
    (renamed id s).forwardedClients = s.forwardedClients := rfl

theorem start_renamed (s : TetrisGameSession) (draws : Draws) (now₀ now₁ : Int) :
    start (renamed id s) draws now₀ now₁ = Resumption.renamed id (start s draws now₀ now₁) := by
  have hstate : (renamed id s).state = s.state := rfl
  unfold start
  rw [hstate]
  cases s.state with
  | waitingForPlayers =>
      simp only [handleWaitingForPlayers]
      rw [renamed_requiredClientsHaveJoined]
      split <;> rfl
  | difficultySelection =>
      simp only [handleDifficultySelection, difficultyLoop]
      split <;> rfl
  | _ => rfl

theorem resume_renamed (s : TetrisGameSession) (now : Int) (frame : Frame) :
    Handlers.resume (renamed id s) now frame =
      Resumption.renamed id (Handlers.resume s now frame) := by
  cases frame with
  | difficultyForward t d₁ d₂ =>
      simp only [Handlers.resume, difficultyLoop]
      split <;> rfl
  | playingForward s₁ s₂ roundOver =>
      simp only [Handlers.resume]
      split
      · simp only [finishRound, Resumption.renamed]
        congr 1
        split
        · rfl
        · split <;> rfl
      · rfl
  | roundOverSleep =>
      simp only [Handlers.resume, restart]
      rw [renamed_client1WinCount, renamed_client2WinCount]
      split <;> rfl
  | _ => rfl

theorem endSession_renamed (w : World) :
    (World.renamed id w).endSession = World.renamed id w.endSession := by
  unfold World.endSession
  rw [renamed_session, renamed_ended]
  split
  · rfl
  · rename_i hended
    simp [World.renamed, renamed, GameSession.endSession, GameSession.disconnectedByEnd, hended]

theorem startTask_renamed (w : World) (task : Task) (frame : Frame) :
    (World.renamed id w).startTask task frame = World.renamed id (w.startTask task frame) := by
  cases task with
  | forAllClients ops =>
      simp only [World.startTask, World.startCallbacks]
      split <;> rfl
  | forwardClientBytes =>
      simp only [World.startTask]
      rw [renamed_session, renamed_forwardedClients]
      split
      · rfl
      · simp only [World.catchError, endSession_renamed]
        rfl

theorem perform_renamed (w : World) (r : Resumption) :
    (World.renamed id w).perform (Resumption.renamed id r) = World.renamed id (w.perform r) := by
  simp only [World.perform, renamed_next]
  split
  · rfl
  · rfl
  · exact startTask_renamed { w with session := r.session, phase := w.phase ++ r.events } _ _

theorem onResolved_renamed (w : World) (a : Activity) (rx : Byte) (now : Int) :
    (World.renamed id w).onResolved a rx now = World.renamed id (w.onResolved a rx now) := by
  unfold World.onResolved
  split
  · simp only
    split <;> rfl
  · rfl
  · rfl

theorem foldl_onResolved_renamed (as : List Activity) (rx : Byte) (now : Int) (w : World) :
    as.foldl (fun w a => w.onResolved a rx now) (World.renamed id w) =
      World.renamed id (as.foldl (fun w a => w.onResolved a rx now) w) := by
  induction as generalizing w with
  | nil => rfl
  | cons a as ih =>
      rw [List.foldl_cons, List.foldl_cons, onResolved_renamed, ih]

theorem foldl_onRejected_renamed (as : List Activity) (w : World) :
    as.foldl World.onRejected (World.renamed id w) =
      World.renamed id (as.foldl World.onRejected w) := by
  induction as generalizing w with
  | nil => rfl
  | cons a as ih => exact ih (w.onRejected a)

theorem step_renamed (w : World) (l : Label) :
    step (World.renamed id w) l = (step w l).map (World.renamed id) := by
  cases l with
  | join c =>
      simp only [step]
      rw [renamed_session, renamed_isJoinable, renamed_joined]
      split <;> rfl
  | tick draws now₀ now₁ =>
      simp only [step]
      rw [renamed_handler]
      split
      · simp only [World.handleState, renamed_session, start_renamed, Option.map_some,
          Option.some.injEq]
        exact perform_renamed { w with past := w.log, phase := [.handlerStarted w.session.state] } _
      · rfl
  | resume now =>
      simp only [step]
      rw [renamed_handler]
      split
      · split
        · rw [renamed_session, resume_renamed, perform_renamed]
          rfl
        · rfl
      · rfl
  | reject =>
      simp only [step]
      rw [renamed_handler]
      split
      · split
        · simp only [World.catchError, endSession_renamed]
          rfl
        · rfl
      · rfl
  | write i accepted =>
      simp only [step]
      rw [renamed_running]
      split
      · split
        · split
          · rw [renamed_client]
            split <;> rfl
          · rfl
        · rfl
      · rfl
  | written i =>
      simp only [step]
      rw [renamed_running]
      split
      · split
        · split <;> rfl
        · rfl
      · rfl
  | writeError i =>
      simp only [step]
      rw [renamed_running]
      split
      · split
        · split <;> rfl
        · rfl
      · rfl
  | timeout i =>
      simp only [step]
      rw [renamed_running]
      split
      · split <;> rfl
      · rfl
  | data c rx now =>
      simp only [step]
      rw [renamed_client, renamed_running, renamed_joined]
      split
      · exact congrArg some (foldl_onResolved_renamed _ rx now
          { w with running := w.running.filter (!·.hears w.client c rx) })
      · rfl
  | close c =>
      simp only [step]
      rw [renamed_client, renamed_running, renamed_joined]
      split
      · refine congrArg some ?_
        rw [← foldl_onRejected_renamed, ← endSession_renamed]
        rfl
      · rfl

/-- A session with any id runs as the session that `init` starts. -/
theorem run_renamed {ls : List Label} (h : Run (Fires step) (World.renamed id w) ls w') :
    ∃ w₀, Run (Fires step) w ls w₀ ∧ w' = World.renamed id w₀ :=
  Run.of_map step_renamed h

end GbPlay.Server.Tetris.Renaming
