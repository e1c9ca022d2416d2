import GbPlay.Server.Tetris.Scoring

/-!
# Ended sessions

`run` calls the next state handler whenever one has returned, whether or not the
session has ended, so it stops only when a handler fails.  Without clients
`forwardClientBytes` throws, while `forAllClients` resolves at once; a session
that ends after its players have joined comes to a forwarding loop after at
most four more handlers.  `handleWaitingForPlayers` does neither and is called
again for ever.
-/

namespace GbPlay.Server.Tetris.Ended

open GbPlay.Library.Runs
open GbPlay.Server.Client GbPlay.Server.Tetris.Data GbPlay.Server.Tetris.Handlers
open GbPlay.Server.Tetris.Model GbPlay.Server.Tetris.Moves GbPlay.Server.Tetris.Sync
open GbPlay.Server.Tetris.Scoring

def isTick (l : Label) : Bool :=
  match l with
  | .tick _ _ _ => true
  | _ => false

/-- Only a bounded number of state handlers is started from here on. -/
def TicksBounded (w : World) : Prop :=
  ∃ N, ∀ ls w', Run (Fires step) w ls w' → ls.countP isTick ≤ N

/-! ## Waiting for players -/

/-- The handler of `WaitingForPlayers` awaits nothing and does not fail. -/
def Waiting (w : World) : Prop :=
  w.session.state = .waitingForPlayers → w.handler = .scheduled

theorem waiting_handleState {w : World} (draws : Draws) (now₀ now₁ : Int) :
    Waiting (w.handleState draws now₀ now₁) := by
  intro hstate
  have hperformed := performed { w with past := w.log, phase := [.handlerStarted w.session.state] }
    (start w.session draws now₀ now₁)
  have hsession := hperformed.state.symm.trans hstate
  rcases start_state w.session draws now₀ now₁ with hsame | ⟨_, hconnected⟩
  · rw [hsame] at hsession
    have hdone : (start w.session draws now₀ now₁).next = .done := by
      simp only [start, hsession, handleWaitingForPlayers]
      split <;> rfl
    rcases hperformed.handler with ⟨_, hscheduled⟩ | ⟨frame, b, hnext, _⟩ | ⟨hnext, _⟩
    · exact hscheduled
    · simp [hdone, Next.frame] at hnext
    · exact absurd hdone hnext
  · rw [hconnected] at hsession
    simp at hsession

/-- No handler goes back to waiting for players. -/
theorem resume_started {s : TetrisGameSession} {frame : Frame} (h : FrameScore s frame)
    (now : Int) : (resume s now frame).session.state ≠ .waitingForPlayers := by
  rw [resume_state]
  cases frame with
  | difficultyForward t d₁ d₂ => simp [h.1]
  | sendGlobalData => simp [h.1]
  | playingSleep => simp [h.1]
  | playingForward s₁ s₂ roundOver => simp [h.1]
  | roundOverSleep =>
      have hstate : s.state = .roundOver := h
      simp [hstate]
  | roundOverRestart nextState => rcases h.2 with ⟨rfl, _⟩ | ⟨rfl, _⟩ <;> simp
  | _ => simp

theorem waiting_move {w w' : World} (h : Waiting w) (hmove : Move w w') : Waiting w' := by
  have hquiet := move_quiet hmove
  intro hstate
  have hsame := hquiet.handler
  rw [h (hquiet.state ▸ hstate)] at hsame
  generalize hnew : w'.handler = handler at hsame
  cases hsame
  rfl

theorem waiting_reachable {w : World} (h : Reachable (Fires step) init w) : Waiting w := by
  have hboth := (invariant_of_moves (I := fun w => ScoreInv w ∧ Waiting w)
    ⟨scoreInv_reachable (.refl _), fun _ => rfl⟩ ?_ ?_ ?_ h).2
  · exact hboth.2
  · rintro w draws now₀ now₁ _ ⟨hscore, _⟩ hhandler
    exact ⟨scoreInv_handleState hscore hhandler draws now₀ now₁, waiting_handleState _ _ _⟩
  · rintro w frame b now _ ⟨hscore, _⟩ hhandler _
    have hframe := hscore.frame frame b hhandler
    refine ⟨scoreInv_perform (keeps_resume hscore.scored hframe now) hscore.sum, fun hstate => ?_⟩
    exact absurd ((performed _ _).state.symm.trans hstate) (resume_started hframe now)
  · rintro w w' _ ⟨hscore, hwaiting⟩ hmove
    exact ⟨scoreInv_move hscore hmove, waiting_move hwaiting hmove⟩

/-! ## How many handlers are left -/

/-- The handlers an ended session still starts from a state other than
`WaitingForPlayers`: it stops in the forwarding loop of `Playing` at the latest. -/
def ticksFromState (state : TetrisGameState) : Nat :=
  match state with
  | .waitingForPlayers => 0
  | .playersConnected => 4
  | .difficultySelection => 3
  | .sendingInitializationData => 2
  | .playing => 1
  | .roundOver => 4

def ticksFromFrame (frame : Frame) : Nat :=
  match frame with
  | .playersConnected => 3
  | .difficultyForward _ _ _ | .difficultyConfirm => 2
  | .sendGlobalData | .startGame => 1
  | .playingSleep => 0
  | .playingForward _ _ _ | .playingPoll => 4
  | .roundOverSleep | .roundOverRestart _ => 3

def ticksLeft (w : World) : Nat :=
  match w.handler with
  | .scheduled => ticksFromState w.session.state
  | .suspended frame _ => ticksFromFrame frame
  | .stopped => 0

/-- The same after a stretch of handler code, where `forwardClientBytes` throws. -/
def ticksAfter (r : Resumption) : Nat :=
  match r.next with
  | .done => ticksFromState r.session.state
  | .sleep frame => ticksFromFrame frame
  | .step (.forAllClients _) frame => ticksFromFrame frame
  | .step .forwardClientBytes _ => 0

theorem ticksLeft_le (w : World) : ticksLeft w ≤ 4 := by
  unfold ticksLeft
  split
  · unfold ticksFromState
    split <;> omega
  · unfold ticksFromFrame
    split <;> omega
  · omega

theorem ticksFromFrame_onTransfer (b₁ b₂ : Byte) (now : Int) (frame : Frame) :
    ticksFromFrame (onTransfer b₁ b₂ now frame) = ticksFromFrame frame := by
  cases frame with
  | difficultyForward t d₁ d₂ =>
      simp only [onTransfer]
      split <;> rfl
  | _ => rfl

theorem ticksLeft_perform {w : World} {r : Resumption} (hclients : r.session.clients = []) :
    ticksLeft (w.perform r) ≤ ticksAfter r := by
  have hnone : r.session.forwardedClients = none := by
    unfold GameSession.forwardedClients
    split
    · rw [hclients]
    · rfl
  cases hnext : r.next with
  | done =>
      simp only [World.perform, ticksAfter, hnext]
      exact le_rfl
  | sleep frame =>
      simp only [World.perform, ticksAfter, hnext]
      exact le_rfl
  | step task frame =>
      cases task with
      | forAllClients ops =>
          simp only [World.perform, ticksAfter, hnext, World.startTask, World.startCallbacks]
          split <;> exact le_rfl
      | forwardClientBytes =>
          simp only [World.perform, ticksAfter, hnext, World.startTask, hnone]
          exact le_rfl

theorem ticksAfter_start (s : TetrisGameSession) (draws : Draws) (now₀ now₁ : Int)
    (hstate : s.state ≠ .waitingForPlayers) :
    ticksAfter (start s draws now₀ now₁) + 1 ≤ ticksFromState s.state := by
  unfold start
  cases hs : s.state with
  | waitingForPlayers => exact absurd hs hstate
  | difficultySelection =>
      simp only [handleDifficultySelection, difficultyLoop]
      split <;> simp [ticksAfter, forwardClientBytes, forAllClients, ticksFromState, ticksFromFrame]
  | _ => exact le_rfl

theorem ticksAfter_resume {s : TetrisGameSession} {frame : Frame} (h : FrameScore s frame)
    (now : Int) : ticksAfter (resume s now frame) ≤ ticksFromFrame frame := by
  cases frame with
  | difficultyForward t d₁ d₂ =>
      simp only [resume, difficultyLoop]
      split <;> simp [ticksAfter, forwardClientBytes, forAllClients, ticksFromFrame]
  | playingForward s₁ s₂ roundOver =>
      cases roundOver <;> simp [ticksAfter, resume, finishRound, forwardClientBytes, ticksFromFrame]
  | roundOverSleep =>
      simp only [resume, restart]
      split <;> exact le_rfl
  | roundOverRestart nextState =>
      rcases h.2 with ⟨rfl, _⟩ | ⟨rfl, _⟩ <;>
        simp [ticksAfter, resume, setState, ticksFromState, ticksFromFrame]
  | _ => simp [ticksAfter, resume, setState, forAllClients, forwardClientBytes, ticksFromState,
      ticksFromFrame]

theorem ticksLeft_move {w w' : World} (h : Move w w') : ticksLeft w' ≤ ticksLeft w := by
  have hquiet := move_quiet h
  have hsame := hquiet.handler
  unfold ticksLeft
  rw [hquiet.state]
  generalize w.handler = handler at hsame ⊢
  generalize w'.handler = handler' at hsame ⊢
  cases hsame with
  | transferred frame b b' b₁ b₂ now => exact (ticksFromFrame_onTransfer b₁ b₂ now frame).le
  | failed frame b => exact Nat.zero_le _
  | _ => exact le_rfl

/-! ## Ended sessions that had their players -/

structure Winding (w : World) : Prop where
  synced : Synced w
  score : ScoreInv w
  ended : w.session.ended = true
  started : w.session.state ≠ .waitingForPlayers

theorem Winding.clients (h : Winding w) : w.session.clients = [] := by
  simp [h.synced.members, h.ended]

theorem ended_perform {w : World} {r : Resumption} (hbase : r.session.ended = true) :
    (w.perform r).session.ended = true := by
  unfold World.perform
  split
  · exact hbase
  · exact hbase
  case h_3 task frame htask =>
      cases task with
      | forAllClients ops =>
          simp only [World.startTask, World.startCallbacks]
          split <;> exact hbase
      | forwardClientBytes =>
          simp only [World.startTask]
          split
          · exact hbase
          · simp [World.catchError, World.endSession, hbase]

theorem winding_move {w w' : World} (h : Winding w) (hmove : Move w w') : Winding w' where
  synced := synced_move h.synced hmove
  score := scoreInv_move h.score hmove
  ended := (move_quiet hmove).ended h.ended
  started := (move_quiet hmove).state ▸ h.started

theorem winding_path {w w' : World} (h : Winding w) (hpath : Path w w') :
    Winding w' ∧ ticksLeft w' ≤ ticksLeft w := by
  induction hpath with
  | refl => exact ⟨h, le_rfl⟩
  | tail _ hmove ih =>
      exact ⟨winding_move ih.1 hmove, (ticksLeft_move hmove).trans ih.2⟩

theorem winding_tick {w : World} (h : Winding w) (hhandler : w.handler = .scheduled)
    (draws : Draws) (now₀ now₁ : Int) :
    Winding (w.handleState draws now₀ now₁) ∧
      ticksLeft (w.handleState draws now₀ now₁) + 1 ≤ ticksLeft w := by
  have hbase := start_toGameSession w.session draws now₀ now₁
  have hleft := ticksLeft_perform (r := start w.session draws now₀ now₁)
    (w := { w with past := w.log, phase := [.handlerStarted w.session.state] })
    (by rw [hbase]; exact h.clients)
  have hafter := ticksAfter_start w.session draws now₀ now₁ h.started
  have hbefore : ticksLeft w = ticksFromState w.session.state := by simp [ticksLeft, hhandler]
  have hstate : (w.handleState draws now₀ now₁).session.state = w.session.state := by
    refine (performed { w with past := w.log, phase := [.handlerStarted w.session.state] }
      (start w.session draws now₀ now₁)).state.trans ?_
    exact (start_state w.session draws now₀ now₁).resolve_right fun hw => h.started hw.1
  refine ⟨⟨?_, ?_, ?_, hstate ▸ h.started⟩, ?_⟩
  · exact synced_handleState h.synced draws now₀ now₁ hhandler
  · exact scoreInv_handleState h.score hhandler draws now₀ now₁
  · exact ended_perform (by rw [hbase]; exact h.ended)
  · rw [hbefore]
    exact (Nat.add_le_add_right hleft 1).trans hafter

theorem winding_resume {w : World} (h : Winding w) {frame : Frame} {b : Barrier} (now : Int)
    (hhandler : w.handler = .suspended frame b) (hpending : b.pending = [])
    (hrejected : b.rejected = false) :
    Winding (w.perform (resume w.session now frame)) ∧
      ticksLeft (w.perform (resume w.session now frame)) ≤ ticksLeft w := by
  have hbase := resume_toGameSession w.session now frame
  have hframe := h.score.frame frame b hhandler
  have hleft := ticksLeft_perform (w := w) (r := resume w.session now frame)
    (by rw [hbase]; exact h.clients)
  have hbefore : ticksLeft w = ticksFromFrame frame := by simp [ticksLeft, hhandler]
  refine ⟨⟨?_, ?_, ?_, ?_⟩, ?_⟩
  · exact synced_perform h.synced (continues_resume h.synced now hhandler hpending hrejected)
  · exact scoreInv_perform (keeps_resume h.score.scored hframe now) h.score.sum
  · exact ended_perform (by rw [hbase]; exact h.ended)
  · rw [(performed w (resume w.session now frame)).state]
    exact resume_started hframe now
  · rw [hbefore]
    exact hleft.trans (ticksAfter_resume hframe now)

/-- A step of such a session starts a handler at the expense of those left. -/
theorem winding_step {w w' : World} {l : Label} (h : Winding w) (hstep : step w l = some w') :
    Winding w' ∧ ticksLeft w' + (if isTick l then 1 else 0) ≤ ticksLeft w := by
  by_cases htick : isTick l = true
  · cases l with
    | tick draws now₀ now₁ =>
        obtain ⟨hhandler, rfl⟩ := step_tick hstep
        exact winding_tick h hhandler draws now₀ now₁
    | _ => simp [isTick] at htick
  · rw [if_neg htick]
    rcases step_cases h.synced.toExclusive hstep with ⟨draws, now₀, now₁, rfl, _⟩ |
      ⟨frame, b, now, hhandler, hpending, hrejected, rfl⟩ | hpath
    · simp [isTick] at htick
    · exact winding_resume h now hhandler hpending hrejected
    · exact winding_path h hpath

theorem Winding.ticks_le {w w' : World} {ls : List Label} (h : Winding w)
    (hrun : Run (Fires step) w ls w') : ls.countP isTick ≤ 4 := by
  have hle := hrun.countP_add_le (p := isTick) h fun t l u hI hstep => winding_step hI hstep
  have hbound := ticksLeft_le w
  omega

/-! ## Ended sessions still waiting for players -/

/-- An ended session in `WaitingForPlayers` with `run` about to be called. -/
structure Spinning (w : World) : Prop where
  synced : Synced w
  ended : w.session.ended = true
  state : w.session.state = .waitingForPlayers
  scheduled : w.handler = .scheduled

theorem Spinning.tick {w : World} (h : Spinning w) (draws : Draws) :
    Spinning (w.handleState draws 0 0) := by
  have hclients : w.session.clients = [] := by simp [h.synced.members, h.ended]
  have hnone : w.session.requiredClientsHaveJoined = false := by
    simp [GameSession.requiredClientsHaveJoined, h.synced.required, hclients]
  have hstart : start w.session draws 0 0 = { session := w.session, next := .done } := by
    simp [start, h.state, handleWaitingForPlayers, hnone]
  refine ⟨synced_handleState h.synced draws 0 0 h.scheduled, ?_, ?_, ?_⟩ <;>
    simp only [World.handleState, hstart, World.perform]
  · exact h.ended
  · exact h.state

theorem Spinning.run {w : World} (h : Spinning w) (draws : Draws) (n : Nat) :
    ∃ w', Spinning w' ∧ Run (Fires step) w (List.replicate n (.tick draws 0 0)) w' := by
  induction n with
  | zero => exact ⟨w, h, .nil⟩
  | succ n ih =>
      obtain ⟨w', hw', hrun⟩ := ih
      refine ⟨_, hw'.tick draws, ?_⟩
      rw [List.replicate_succ']
      refine hrun.snoc ?_
      simp only [Fires, step, hw'.scheduled]

/-- `run` never stops calling the handler. -/
theorem Spinning.not_ticksBounded {w : World} (h : Spinning w) : ¬TicksBounded w := by
  rintro ⟨N, hbound⟩
  obtain ⟨w', _, hrun⟩ := h.run draws₀ (N + 1)
  have hle := hbound _ _ hrun
  have hcount : (List.replicate (N + 1) (Label.tick draws₀ 0 0)).countP isTick = N + 1 := by
    rw [List.countP_replicate]
    rfl
  omega

/-- An ended session stops running if and only if it did not end while waiting
for its players. -/
theorem ticksBounded_iff {w : World} (h : Reachable (Fires step) init w)
    (hended : w.session.ended = true) :
    TicksBounded w ↔ w.session.state ≠ .waitingForPlayers := by
  have hsynced := synced_reachable h
  constructor
  · intro hbounded hstate
    have hspinning : Spinning w := ⟨hsynced, hended, hstate, waiting_reachable h hstate⟩
    exact hspinning.not_ticksBounded hbounded
  · intro hstarted
    have hwinding : Winding w := ⟨hsynced, scoreInv_reachable h, hended, hstarted⟩
    exact ⟨4, fun _ _ hrun => hwinding.ticks_le hrun⟩

theorem ticksBounded_iff_connected :
    ∃ w, w.session.ended = true ∧ w.session.state = .playersConnected ∧
      (TicksBounded w ↔ w.session.state ≠ .waitingForPlayers) := by
  have hrun : (exec step init [.join 7, .join 8, .tick draws₀ 0 0, .close 7]).any
      (fun w => w.session.ended = true ∧ w.session.state = .playersConnected) = true := by
    decide
  obtain ⟨w, hw, hp⟩ := exists_reachable_of_exec hrun
  simp only [decide_eq_true_eq] at hp
  exact ⟨w, hp.1, hp.2, ticksBounded_iff hw hp.1⟩

/-- The only player so far leaves before a second one has joined. -/
theorem ended_alone_spins :
    ∃ w, exec step init [.join 7, .tick draws₀ 0 0, .close 7] = some w ∧
      w.session.ended = true ∧ ¬TicksBounded w := by
  refine ⟨_, rfl, rfl, ?_⟩
  have hrun : exec step init [.join 7, .tick draws₀ 0 0, .close 7] = some _ := rfl
  exact Spinning.not_ticksBounded ⟨synced_reachable (reachable_of_exec hrun), rfl, rfl, rfl⟩

end GbPlay.Server.Tetris.Ended
