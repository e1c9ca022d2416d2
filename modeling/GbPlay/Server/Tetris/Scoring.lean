import GbPlay.Server.Tetris.Sync

/-!
# Match score

The counts are changed when a round completes, tested when the next one is
prepared and reset when the difficulty is selected again.  `FrameScore` is what
holds of the session while a handler is suspended at each of its awaits; with
it every stretch of handler code keeps `ScoreInv`.
-/

namespace GbPlay.Server.Tetris.Scoring

open GbPlay.Library.Runs
open GbPlay.Server.Client GbPlay.Server.Tetris.Data GbPlay.Server.Tetris.Handlers
open GbPlay.Server.Tetris.Model GbPlay.Server.Tetris.Moves GbPlay.Server.Tetris.Sync

/-! ## Decided rounds -/

def score (n : Nat) (e : Event) : Nat :=
  match e with
  | .reset => 0
  | .roundCompleted client1StatusByte client2StatusByte =>
      if client1StatusByte = client2StatusByte then n else n + 1
  | _ => n

/-- The completed rounds without a draw since `handleDifficultySelection` last
reset the counts. -/
def decidedSinceReset (log : List Event) : Nat := log.foldl score 0

theorem foldl_score_of_not_scores {events : List Event} (h : ∀ e ∈ events, scores e = false)
    (n : Nat) : events.foldl score n = n := by
  induction events generalizing n with
  | nil => rfl
  | cons e events ih =>
      have hfirst : score n e = n := by
        have he := h e List.mem_cons_self
        cases e <;> first | rfl | simp [scores] at he
      rw [List.foldl_cons, hfirst]
      exact ih (fun e' he' => h e' (List.mem_cons_of_mem _ he')) n

/-! ## The counts of a session -/

def BelowFour (s : TetrisGameSession) : Prop := s.client1WinCount < 4 ∧ s.client2WinCount < 4

structure AtMostFour (s : TetrisGameSession) : Prop where
  client1WinCount : s.client1WinCount ≤ 4
  client2WinCount : s.client2WinCount ≤ 4
  not_both : ¬(s.client1WinCount = 4 ∧ s.client2WinCount = 4)

theorem BelowFour.atMostFour {s : TetrisGameSession} (h : BelowFour s) : AtMostFour s := by
  obtain ⟨h₁, h₂⟩ := h
  constructor <;> omega

theorem AtMostFour.not_belowFour_iff {s : TetrisGameSession} (h : AtMostFour s) :
    ¬BelowFour s ↔ s.client1WinCount = 4 ∨ s.client2WinCount = 4 := by
  have h₁ := h.client1WinCount
  have h₂ := h.client2WinCount
  unfold BelowFour
  omega

/-- The round has no result in the handler call whose events are `phase`. -/
def NoResult (phase : List Event) : Prop := ∀ s₁ s₂, .roundCompleted s₁ s₂ ∉ phase

structure Scored (s : TetrisGameSession) (phase : List Event) : Prop where
  atMostFour : AtMostFour s
  initializing : s.state = .sendingInitializationData → BelowFour s
  playing : s.state = .playing → NoResult phase → BelowFour s

/-- What holds of the session where its handler is suspended at `frame`. -/
def FrameScore (s : TetrisGameSession) (frame : Frame) : Prop :=
  match frame with
  | .playersConnected => s.state = .playersConnected
  | .difficultyForward _ _ _ | .difficultyConfirm =>
      s.state = .difficultySelection ∧ s.client1WinCount = 0 ∧ s.client2WinCount = 0
  | .sendGlobalData | .startGame => s.state = .sendingInitializationData ∧ BelowFour s
  | .playingSleep | .playingForward _ _ _ => s.state = .playing ∧ BelowFour s
  | .playingPoll => s.state = .playing
  | .roundOverSleep => s.state = .roundOver
  | .roundOverRestart nextState => s.state = .roundOver ∧
      (nextState = .sendingInitializationData ∧ BelowFour s ∨
        nextState = .difficultySelection ∧ ¬BelowFour s)

theorem frameScore_onTransfer {s : TetrisGameSession} {frame : Frame} (h : FrameScore s frame)
    (b₁ b₂ : Byte) (now : Int) : FrameScore s (onTransfer b₁ b₂ now frame) := by
  cases frame with
  | difficultyForward t d₁ d₂ =>
      simp only [onTransfer]
      split <;> exact h
  | _ => exact h

/-- A stretch of handler code keeps the score of a session. -/
structure Keeps (s : TetrisGameSession) (phase : List Event) (r : Resumption) : Prop where
  scored : Scored r.session (phase ++ r.events)
  sum : r.session.client1WinCount + r.session.client2WinCount =
    r.events.foldl score (s.client1WinCount + s.client2WinCount)
  frame : ∀ frame, r.next.frame = some frame → FrameScore r.session frame
  ready : r.next = .done → r.session.state = .playing → BelowFour r.session

section Keeps

variable {s : TetrisGameSession} {phase : List Event}

theorem Scored.append (h : Scored s phase) (events : List Event) : Scored s (phase ++ events) := by
  refine { h with playing := fun hstate hnone => h.playing hstate ?_ }
  exact fun s₁ s₂ hmem => hnone s₁ s₂ (List.mem_append_left _ hmem)

/-- Code that returns with a new state, or awaits something, without an event. -/
theorem keeps_setState (h : AtMostFour s) (state : TetrisGameState)
    (hbelow : state = .sendingInitializationData ∨ state = .playing → BelowFour s) :
    Keeps s phase (setState s state) where
  scored := ⟨{ h with }, fun hstate => hbelow (.inl hstate), fun hstate _ => hbelow (.inr hstate)⟩
  sum := rfl
  frame := by simp [setState, Next.frame]
  ready := fun _ hstate => hbelow (.inr hstate)

theorem keeps_await (h : Scored s phase) {next : Next} {frame : Frame}
    (hnext : next.frame = some frame) (hframe : FrameScore s frame) :
    Keeps s phase { session := s, next := next } where
  scored := h.append _
  sum := rfl
  frame := by
    intro frame' hframe'
    obtain rfl := Option.some.inj (hnext.symm.trans hframe')
    exact hframe
  ready := by
    rintro rfl
    simp [Next.frame] at hnext

theorem keeps_difficultyLoop (h : Scored s phase) (hstate : s.state = .difficultySelection)
    (hzero : s.client1WinCount = 0 ∧ s.client2WinCount = 0) (t now : Int) (d₁ d₂ : Byte) :
    Keeps s phase (difficultyLoop s t d₁ d₂ now) := by
  unfold difficultyLoop
  split
  · exact keeps_await h rfl ⟨hstate, hzero⟩
  · exact keeps_await h rfl ⟨hstate, hzero⟩

theorem keeps_finishRound (hstate : s.state = .playing) (hbelow : BelowFour s) (s₁ s₂ : Byte) :
    Keeps s phase (finishRound s s₁ s₂) := by
  obtain ⟨h₁, h₂⟩ := hbelow
  have hresult : ¬NoResult (phase ++ [.roundCompleted s₁ s₂]) := fun hnone =>
    hnone s₁ s₂ (by simp)
  unfold finishRound
  by_cases hdraw : s₁ = s₂
  · refine ⟨⟨?_, by simp [hdraw, hstate], fun _ hnone => absurd hnone hresult⟩, ?_, ?_, ?_⟩
    · simpa [hdraw] using BelowFour.atMostFour ⟨h₁, h₂⟩
    · simp [hdraw, score]
    · simp [hdraw, Next.frame, FrameScore, hstate]
    · simp
  · by_cases hfirst : s₁ = TetrisCtrlByte.win ∨ s₂ = TetrisCtrlByte.lose
    all_goals
      refine ⟨⟨?_, by simp [hdraw, hfirst, hstate], fun _ hnone => absurd hnone hresult⟩,
        ?_, ?_, ?_⟩
      · constructor <;> simp [hdraw, hfirst] <;> omega
      · simp [hdraw, hfirst, score]
        omega
      · simp [hdraw, hfirst, Next.frame, FrameScore, hstate]
      · simp

theorem keeps_restart (h : Scored s phase) (hstate : s.state = .roundOver) :
    Keeps s phase (restart s) := by
  unfold restart
  split
  case isTrue hbelow =>
      exact keeps_await h rfl ⟨hstate, .inl ⟨rfl, hbelow⟩⟩
  case isFalse hbelow =>
      exact keeps_await h rfl ⟨hstate, .inr ⟨rfl, hbelow⟩⟩

theorem keeps_resume (h : Scored s phase) {frame : Frame} (hframe : FrameScore s frame)
    (now : Int) : Keeps s phase (resume s now frame) := by
  cases frame with
  | playersConnected => exact keeps_setState h.atMostFour _ (by simp)
  | difficultyForward t d₁ d₂ => exact keeps_difficultyLoop h hframe.1 hframe.2 t now d₁ d₂
  | difficultyConfirm =>
      refine keeps_setState h.atMostFour _ fun _ => ?_
      simp [BelowFour, hframe.2.1, hframe.2.2]
  | sendGlobalData => exact keeps_await h rfl hframe
  | startGame => exact keeps_setState h.atMostFour _ fun _ => hframe.2
  | playingSleep => exact keeps_await h rfl hframe
  | playingForward s₁ s₂ roundOver =>
      cases roundOver with
      | false => exact keeps_await h rfl hframe
      | true => exact keeps_finishRound hframe.1 hframe.2 s₁ s₂
  | playingPoll => exact keeps_setState h.atMostFour _ (by simp)
  | roundOverSleep => exact keeps_restart h hframe
  | roundOverRestart nextState =>
      refine keeps_setState h.atMostFour _ fun hnext => ?_
      rcases hframe.2 with ⟨_, hbelow⟩ | ⟨rfl, _⟩
      · exact hbelow
      · simp at hnext

theorem keeps_handleDifficultySelection (hstate : s.state = .difficultySelection)
    (now₀ now₁ : Int) : Keeps s phase (handleDifficultySelection s now₀ now₁) := by
  have hreset : Scored { s with client1WinCount := 0, client2WinCount := 0 }
      (phase ++ [.reset]) := by
    refine ⟨?_, by simp [hstate], by simp [hstate]⟩
    constructor <;> simp
  have hloop := keeps_difficultyLoop hreset hstate ⟨rfl, rfl⟩ now₀ now₁ 0 0
  have hsession : (difficultyLoop { s with client1WinCount := 0, client2WinCount := 0 } now₀ 0 0
      now₁).session = { s with client1WinCount := 0, client2WinCount := 0 } := by
    unfold difficultyLoop
    split <;> rfl
  refine ⟨?_, ?_, hloop.frame, hloop.ready⟩
  · simp only [handleDifficultySelection, hsession]
    exact hreset
  · simp only [handleDifficultySelection, hsession]
    rfl

theorem keeps_start (h : Scored s phase) (hphase : NoResult phase) (draws : Draws)
    (now₀ now₁ : Int) : Keeps s phase (start s draws now₀ now₁) := by
  unfold start
  cases hstate : s.state with
  | waitingForPlayers =>
      simp only [handleWaitingForPlayers]
      split
      · exact keeps_setState h.atMostFour _ (by simp)
      · exact ⟨h.append _, rfl, by simp [Next.frame], by simp [hstate]⟩
  | playersConnected => exact keeps_await h rfl hstate
  | difficultySelection => exact keeps_handleDifficultySelection hstate now₀ now₁
  | sendingInitializationData =>
      have hframe : FrameScore s .sendGlobalData := ⟨hstate, h.initializing hstate⟩
      exact { keeps_await h rfl hframe with scored := h.append _ }
  | playing => exact keeps_await h rfl ⟨hstate, h.playing hstate hphase⟩
  | roundOver => exact keeps_await h rfl hstate

end Keeps

/-! ## Every reachable state -/

structure ScoreInv (w : World) : Prop where
  scored : Scored w.session w.phase
  sum : w.session.client1WinCount + w.session.client2WinCount = decidedSinceReset w.log
  frame : ∀ frame b, w.handler = .suspended frame b → FrameScore w.session frame
  ready : w.handler = .scheduled → w.session.state = .playing → BelowFour w.session

section SameScore

variable {s s' : TetrisGameSession} (hstate : s'.state = s.state)
  (h₁ : s'.client1WinCount = s.client1WinCount) (h₂ : s'.client2WinCount = s.client2WinCount)

include h₁ h₂

theorem BelowFour.congr (h : BelowFour s) : BelowFour s' := by
  rwa [BelowFour, h₁, h₂]

include hstate

theorem Scored.congr {phase : List Event} (h : Scored s phase) : Scored s' phase := by
  obtain ⟨hfour, hinit, hplaying⟩ := h
  refine ⟨⟨h₁ ▸ hfour.client1WinCount, h₂ ▸ hfour.client2WinCount, ?_⟩, ?_, ?_⟩
  · rw [h₁, h₂]
    exact hfour.not_both
  · rw [hstate, BelowFour, h₁, h₂]
    exact hinit
  · rw [hstate, BelowFour, h₁, h₂]
    exact hplaying

theorem FrameScore.congr {frame : Frame} (h : FrameScore s frame) : FrameScore s' frame := by
  cases frame <;> simp only [FrameScore, BelowFour, hstate, h₁, h₂] at h ⊢ <;> exact h

end SameScore

theorem scoreInv_perform {w : World} {r : Resumption} (h : Keeps w.session w.phase r)
    (hsum : w.session.client1WinCount + w.session.client2WinCount = decidedSinceReset w.log) :
    ScoreInv (w.perform r) := by
  have hperformed := performed w r
  have hstate := hperformed.state
  have h₁ := hperformed.client1WinCount
  have h₂ := hperformed.client2WinCount
  obtain ⟨events, hphase, hevents⟩ := hperformed.phase
  constructor
  case scored =>
      rw [hphase]
      exact (h.scored.append events).congr hstate h₁ h₂
  case sum =>
      rw [World.log, hperformed.past, hphase, h₁, h₂, h.sum, hsum, decidedSinceReset,
        decidedSinceReset, ← List.append_assoc, ← List.append_assoc, List.foldl_append,
        foldl_score_of_not_scores hevents, List.foldl_append]
      rfl
  case frame =>
      intro frame b hhandler
      rcases hperformed.handler with ⟨_, hdone⟩ | ⟨frame', b', hnext, hframe⟩ | ⟨_, hstopped⟩
      · simp [hdone] at hhandler
      · obtain ⟨rfl, rfl⟩ : frame' = frame ∧ b' = b := by simpa [hframe] using hhandler
        exact (h.frame frame' hnext).congr hstate h₁ h₂
      · simp [hstopped] at hhandler
  case ready =>
      intro hhandler hplaying
      rcases hperformed.handler with ⟨hdone, _⟩ | ⟨frame', b', _, hframe⟩ | ⟨_, hstopped⟩
      · exact (h.ready hdone (hstate ▸ hplaying)).congr h₁ h₂
      · simp [hframe] at hhandler
      · simp [hstopped] at hhandler

theorem keeps_tick {w : World} (h : ScoreInv w) (hhandler : w.handler = .scheduled)
    (draws : Draws) (now₀ now₁ : Int) :
    Keeps w.session [.handlerStarted w.session.state] (start w.session draws now₀ now₁) := by
  refine keeps_start { h.scored with playing := ?_ } (by simp [NoResult]) draws now₀ now₁
  exact fun hplaying _ => h.ready hhandler hplaying

theorem scoreInv_handleState {w : World} (h : ScoreInv w) (hhandler : w.handler = .scheduled)
    (draws : Draws) (now₀ now₁ : Int) : ScoreInv (w.handleState draws now₀ now₁) := by
  refine scoreInv_perform (w := { w with
    past := w.log, phase := [.handlerStarted w.session.state] })
    (keeps_tick h hhandler draws now₀ now₁) ?_
  simp only [World.log, decidedSinceReset, List.foldl_append, List.foldl_cons, List.foldl_nil,
    score]
  rw [← List.foldl_append]
  exact h.sum

theorem scoreInv_move {w w' : World} (h : ScoreInv w) (hmove : Move w w') : ScoreInv w' := by
  have hquiet := move_quiet hmove
  have hstate := hquiet.state
  have h₁ := hquiet.client1WinCount
  have h₂ := hquiet.client2WinCount
  obtain ⟨events, hphase, hevents⟩ := hquiet.phase
  constructor
  case scored =>
      rw [hphase]
      exact (h.scored.append events).congr hstate h₁ h₂
  case sum =>
      rw [World.log, hquiet.past, hphase, h₁, h₂, h.sum, decidedSinceReset, decidedSinceReset,
        ← List.append_assoc, List.foldl_append,
        foldl_score_of_not_scores fun e he => scores_of_not_ofHandler (hevents e he)]
      rfl
  case frame =>
      intro frame b hhandler
      have hsame := hquiet.handler
      rw [hhandler] at hsame
      generalize hold : w.handler = handler at hsame
      cases hsame with
      | suspended _ b₀ => exact (h.frame _ _ hold).congr hstate h₁ h₂
      | transferred frame₀ b₀ _ b₁ b₂ now =>
          exact (frameScore_onTransfer (h.frame _ _ hold) b₁ b₂ now).congr hstate h₁ h₂
  case ready =>
      intro hhandler hplaying
      have hsame := hquiet.handler
      rw [hhandler] at hsame
      generalize hold : w.handler = handler at hsame
      cases hsame
      exact (h.ready hold (hstate ▸ hplaying)).congr h₁ h₂

theorem scoreInv_reachable {w : World} (h : Reachable (Fires step) init w) : ScoreInv w := by
  refine (invariant_of_moves ?_ ?_ ?_ ?_ h).2
  · refine ⟨⟨?_, by simp [init], by simp [init]⟩, rfl, by simp [init], by simp [init]⟩
    constructor <;> simp [init]
  · exact fun w draws now₀ now₁ _ hI hhandler => scoreInv_handleState hI hhandler draws now₀ now₁
  · intro w frame b now _ hI hhandler _
    exact scoreInv_perform (keeps_resume hI.scored (hI.frame frame b hhandler) now) hI.sum
  · exact fun w w' _ hI hmove => scoreInv_move hI hmove

/-! ## Changes of state -/

theorem path_state {w w' : World} (h : Path w w') :
    w'.session.state = w.session.state ∧
      w'.session.client1WinCount = w.session.client1WinCount ∧
      w'.session.client2WinCount = w.session.client2WinCount := by
  induction h with
  | refl => exact ⟨rfl, rfl, rfl⟩
  | tail _ hmove ih =>
      have hquiet := move_quiet hmove
      exact ⟨hquiet.state.trans ih.1, hquiet.client1WinCount.trans ih.2.1,
        hquiet.client2WinCount.trans ih.2.2⟩

/-- A handler that does not await anything leaves the state for `PlayersConnected` only. -/
theorem start_state (s : TetrisGameSession) (draws : Draws) (now₀ now₁ : Int) :
    (start s draws now₀ now₁).session.state = s.state ∨
      (s.state = .waitingForPlayers ∧
        (start s draws now₀ now₁).session.state = .playersConnected) := by
  unfold start
  cases hstate : s.state with
  | waitingForPlayers =>
      simp only [handleWaitingForPlayers]
      split
      · exact .inr ⟨trivial, rfl⟩
      · exact .inl hstate
  | difficultySelection =>
      left
      simp only [handleDifficultySelection, difficultyLoop]
      split <;> exact hstate
  | _ => exact .inl hstate

/-- The state a handler leaves behind where it goes on after an await. -/
theorem resume_state (s : TetrisGameSession) (now : Int) (frame : Frame) :
    (resume s now frame).session.state =
      match frame with
      | .playersConnected => .difficultySelection
      | .difficultyConfirm => .sendingInitializationData
      | .startGame => .playing
      | .playingPoll => .roundOver
      | .roundOverRestart nextState => nextState
      | _ => s.state := by
  cases frame with
  | difficultyForward t d₁ d₂ =>
      simp only [resume, difficultyLoop]
      split <;> rfl
  | playingForward s₁ s₂ roundOver =>
      cases roundOver
      · rfl
      · simp only [resume, finishRound, if_true]
        split
        · rfl
        · split <;> rfl
  | roundOverSleep =>
      simp only [resume, restart]
      split <;> rfl
  | _ => rfl

/-- A handler suspended here goes on to `SendingInitializationData` or, from
there, to `Playing`. -/
def leadsToRound (frame : Frame) : Bool :=
  match frame with
  | .difficultyForward _ _ _ | .difficultyConfirm | .sendGlobalData | .startGame
  | .roundOverRestart .sendingInitializationData => true
  | _ => false

/-- What a change of state by one step from `w` to `w'` tells about the counts. -/
structure Changes (w w' : World) : Prop where
  entering : w'.session.state = .sendingInitializationData ∨
    (w'.session.state = .playing ∧ w.session.state ≠ .playing) → BelowFour w.session
  leavingRoundOver : w.session.state = .roundOver → w'.session.state ≠ .roundOver →
    (w'.session.state = .difficultySelection ↔
      w.session.client1WinCount = 4 ∨ w.session.client2WinCount = 4) ∧
    (w'.session.state = .difficultySelection ∨ w'.session.state = .sendingInitializationData)
  leavingDifficulty : w.session.state = .difficultySelection →
    w'.session.state ≠ .difficultySelection →
    w'.session.state = .sendingInitializationData ∧
      w'.session.client1WinCount = 0 ∧ w'.session.client2WinCount = 0

/-- A step that leaves the state as it is. -/
theorem changes_of_same {w w' : World} (h : ScoreInv w)
    (hstate : w'.session.state = w.session.state) : Changes w w' where
  entering := by
    rintro (hinit | ⟨hplaying, hne⟩)
    · exact h.scored.initializing (hstate ▸ hinit)
    · exact absurd (hstate ▸ hplaying) hne
  leavingRoundOver := fun hover hne => absurd (hstate.trans hover) hne
  leavingDifficulty := fun hdifficulty hne => absurd (hstate.trans hdifficulty) hne

theorem changes_resume {w : World} (h : ScoreInv w) {frame : Frame} {b : Barrier} (now : Int)
    (hhandler : w.handler = .suspended frame b) :
    Changes w (w.perform (resume w.session now frame)) := by
  have hframe := h.frame frame b hhandler
  have hperformed := performed w (resume w.session now frame)
  have hstate := hperformed.state.trans (resume_state w.session now frame)
  cases frame with
  | playersConnected =>
      have hbefore : w.session.state = .playersConnected := hframe
      constructor <;> simp [hstate, hbefore]
  | difficultyConfirm =>
      obtain ⟨hbefore, h₁, h₂⟩ := hframe
      refine ⟨fun _ => ?_, by simp [hbefore], fun _ _ => ⟨hstate, ?_, ?_⟩⟩
      · simp [BelowFour, h₁, h₂]
      · exact hperformed.client1WinCount.trans h₁
      · exact hperformed.client2WinCount.trans h₂
  | startGame =>
      obtain ⟨hbefore, hbelow⟩ := hframe
      exact ⟨fun _ => hbelow, by simp [hbefore], by simp [hbefore]⟩
  | playingPoll =>
      have hbefore : w.session.state = .playing := hframe
      constructor <;> simp [hstate, hbefore]
  | roundOverRestart nextState =>
      obtain ⟨hbefore, hnext⟩ := hframe
      have hnext' : (w.perform (resume w.session now (.roundOverRestart nextState))).session.state =
        nextState := hstate
      rw [h.scored.atMostFour.not_belowFour_iff] at hnext
      rcases hnext with ⟨rfl, hbelow⟩ | ⟨rfl, hfour⟩
      · have hno := mt h.scored.atMostFour.not_belowFour_iff.mpr (not_not_intro hbelow)
        exact ⟨fun _ => hbelow, fun _ _ => by simp [hnext', hno], by simp [hbefore]⟩
      · exact ⟨by simp [hnext'], fun _ _ => by simp [hnext', hfour], by simp [hbefore]⟩
  | _ => exact changes_of_same h hstate

theorem changes_step {w w' : World} (hsynced : Synced w) (h : ScoreInv w) {l : Label}
    (hstep : step w l = some w') : Changes w w' := by
  rcases step_cases hsynced.toExclusive hstep with ⟨draws, now₀, now₁, _, _, rfl⟩ |
    ⟨frame, b, now, hhandler, _, _, rfl⟩ | hpath
  · have hstate := (performed { w with past := w.log, phase := [.handlerStarted w.session.state] }
      (start w.session draws now₀ now₁)).state
    rcases start_state w.session draws now₀ now₁ with hsame | ⟨hbefore, hafter⟩
    · exact changes_of_same h (hstate.trans hsame)
    · have hconnected : (w.handleState draws now₀ now₁).session.state = .playersConnected :=
        hstate.trans hafter
      constructor <;> simp [hconnected, hbefore]
  · exact changes_resume h now hhandler
  · exact changes_of_same h (path_state hpath).1

/-- The score of a match in one state of the session. -/
structure MatchScore (w : World) : Prop where
  atMostFour : AtMostFour w.session
  sum : w.session.client1WinCount + w.session.client2WinCount = decidedSinceReset w.log
  initializing : w.session.state = .sendingInitializationData → BelowFour w.session
  playing : w.session.state = .playing →
    w.handler = .scheduled ∨ NoResult w.phase → BelowFour w.session
  aboutToEnter : ∀ frame b, w.handler = .suspended frame b → leadsToRound frame = true →
    BelowFour w.session
  changes : ∀ l w', step w l = some w' → Changes w w'

theorem match_score {w : World} (h : Reachable (Fires step) init w) : MatchScore w := by
  have hinv := scoreInv_reachable h
  constructor
  case atMostFour => exact hinv.scored.atMostFour
  case sum => exact hinv.sum
  case initializing => exact hinv.scored.initializing
  case playing =>
      rintro hplaying (hscheduled | hnone)
      · exact hinv.ready hscheduled hplaying
      · exact hinv.scored.playing hplaying hnone
  case aboutToEnter =>
      intro frame b hhandler hleads
      have hframe := hinv.frame frame b hhandler
      cases frame with
      | difficultyForward t d₁ d₂ => simp [BelowFour, hframe.2.1, hframe.2.2]
      | difficultyConfirm => simp [BelowFour, hframe.2.1, hframe.2.2]
      | sendGlobalData => exact hframe.2
      | startGame => exact hframe.2
      | roundOverRestart nextState =>
          rcases hframe.2 with ⟨_, hbelow⟩ | ⟨rfl, _⟩
          · exact hbelow
          · simp [leadsToRound] at hleads
      | _ => simp [leadsToRound] at hleads
  case changes => exact fun l w' hstep => changes_step (synced_reachable h) hinv hstep

/-- Both clients answer `rx`, `n` times. -/
def answers (n : Nat) (rx : Byte) : List Label :=
  (List.replicate n (exchange 0 7 rx ++ exchange 0 8 rx)).flatten

/-- Both clients choose the music and a difficulty. -/
def chooseDifficulty : List Label :=
  [.join 7, .join 8, .tick draws₀ 0 0, .tick draws₀ 0 0] ++ answers 1 0x55 ++ answers 1 0x39 ++
    answers 1 0x50 ++ [.resume 0, .tick draws₀ 0 5000] ++ answers 1 0x55 ++ [.resume 0]

/-- They are sent the garbage, the pieces and the start sequence. -/
def sendInitializationData : List Label :=
  [.tick draws₀ 0 0] ++ answers 1 0x55 ++ answers 100 0 ++ answers 1 0x55 ++ answers 256 0 ++
    [.resume 0] ++ answers 5 0 ++ [.resume 0]

/-- One forwarding step, with what the clients answer. -/
def forward (b₁ b₂ : Byte) : List Label := exchange 0 8 b₂ ++ exchange 0 7 b₁ ++ [.resume 0]

/-- The first client wins a round. -/
def winRound : List Label :=
  [.tick draws₀ 0 0, .resume 0] ++ forward 0x77 0 ++ forward 0x34 0x34 ++ forward 0x34 0x34 ++
    answers 1 0x34 ++ answers 1 0 ++ [.resume 0]

/-- A round has been decided. -/
theorem match_score_decided :
    ∃ w, w.session.state = .roundOver ∧ w.session.client1WinCount = 1 ∧
      w.session.client2WinCount = 0 ∧ decidedSinceReset w.log = 1 ∧ MatchScore w := by
  have hrun : (exec step init (chooseDifficulty ++ sendInitializationData ++ winRound)).any
      (fun w => w.session.state = .roundOver ∧ w.session.client1WinCount = 1 ∧
        w.session.client2WinCount = 0) = true := by
    decide +kernel
  obtain ⟨w, hw, hp⟩ := exists_reachable_of_exec hrun
  rw [decide_eq_true_iff] at hp
  obtain ⟨hstate, hwins1, hwins2⟩ := hp
  have hscore := match_score hw
  have hsum := hscore.sum
  rw [hwins1, hwins2] at hsum
  exact ⟨w, hstate, hwins1, hwins2, hsum.symm, hscore⟩

end GbPlay.Server.Tetris.Scoring
