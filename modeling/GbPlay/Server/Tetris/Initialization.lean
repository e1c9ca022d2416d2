import GbPlay.Server.Tetris.Callbacks
import GbPlay.Server.Tetris.Scoring

/-!
# Fair initialization

The history of a call of `handleSendingInitializationData` consists of its
opening, the events of the step that sends the data and, once that step is
complete, those of the step that sends the start sequence.  What the two steps
send to a client is the transcript of its callbacks.
-/

namespace GbPlay.Server.Tetris.Initialization

open GbPlay.Library GbPlay.Library.Runs
open GbPlay.Server.Client GbPlay.Server.Script GbPlay.Server.Transcripts
open GbPlay.Server.Tetris.Data GbPlay.Server.Tetris.Handlers GbPlay.Server.Tetris.Model
open GbPlay.Server.Tetris.Moves GbPlay.Server.Tetris.Sync GbPlay.Server.Tetris.Scoring
open GbPlay.Server.Tetris.Callbacks

/-! ## The history of the phase -/

def opening (G P : List Byte) (n : Nat) (cs : List ClientId) : List Event :=
  [.handlerStarted .sendingInitializationData, .generated G P,
    .begun n cs (.forAllClients (sendGlobalData G P))]

/-- The step that sends the start sequence, if it has begun: its clients and
what has happened in it. -/
abbrev Second := Option (List ClientId × List Event)

def laterEvents (n : Nat) (second : Second) : List Event :=
  match second with
  | none => []
  | some (cs, events) => .begun (n + 1) cs (.forAllClients [.sendBuffer startSequence]) :: events

/-- An event of the clients in step `n`. -/
def OnlyIn (n : Nat) (e : Event) : Prop := ofHandler e = false ∧ ∀ m, stepOf e = some m → m = n

/-- The session is in, or has just left, the phase that sends `G` and `P`. -/
structure Initializing (w : World) (G P : List Byte) (n : Nat) (cs : List ClientId)
    (events : List Event) (second : Second) : Prop where
  phase : w.phase = opening G P n cs ++ (events ++ laterEvents n second)
  garbage : G.length = 100
  pieces : P.length = 256
  steps : w.steps = n + 1 + second.toList.length
  past : ∀ e ∈ w.past, ∀ m, stepOf e = some m → m < n
  first : ∀ e ∈ events, OnlyIn n e
  later : ∀ cs' events', second = some (cs', events') → ∀ e ∈ events', OnlyIn (n + 1) e
  members : (cs = [] ∨ cs = w.joined) ∧ (w.session.ended = false → cs = w.joined)
  laterMembers : ∀ cs' events', second = some (cs', events') →
    (cs' = [] ∨ cs' = w.joined) ∧ (w.session.ended = false → cs' = w.joined)

/-- Where the handler and its phase are in `SendingInitializationData`. -/
structure Staged (w : World) : Prop where
  staged : w.phase.head? = some (.handlerStarted .sendingInitializationData) →
    ∃ G P n cs events second, Initializing w G P n cs events second
  sendGlobalData : ∀ b, w.handler = .suspended .sendGlobalData b →
    ∃ G P n cs events, Initializing w G P n cs events none
  startGame : ∀ b, w.handler = .suspended .startGame b →
    ∃ G P n cs events later, Initializing w G P n cs events (some later)
  playing : w.handler = .scheduled → w.session.state = .playing →
    ∃ G P n cs events later, Initializing w G P n cs events (some later)
  head : w.handler ≠ .scheduled → w.phase.head? = some (.handlerStarted w.session.state)

section Moves

variable {w w' : World} {G P : List Byte} {n : Nat} {cs : List ClientId} {events : List Event}
  {second : Second}

theorem Initializing.head (h : Initializing w G P n cs events second) :
    w.phase.head? = some (.handlerStarted .sendingInitializationData) := by
  simp [h.phase, opening]

theorem Initializing.step_unique (h : Initializing w G P n cs events second) {G' P' : List Byte}
    {n' : Nat} {cs' : List ClientId} {events' : List Event} {second' : Second}
    (h' : Initializing w G' P' n' cs' events' second') : n = n' := by
  have hphase := h.phase.symm.trans h'.phase
  simp only [opening, List.cons_append, List.cons.injEq, Event.begun.injEq] at hphase
  exact hphase.2.2.1.1

/-- What a move records is in the step begun last. -/
theorem move_onlyIn (hsynced : Synced w) (hmove : Move w w') :
    ∃ new, w'.phase = w.phase ++ new ∧ ∀ e ∈ new, ∀ m, m + 1 = w.steps → OnlyIn m e := by
  obtain ⟨new, hnew, hsteps⟩ := move_steps hmove
  obtain ⟨new', hnew', hhandler⟩ := (move_quiet hmove).phase
  obtain rfl : new = new' := List.append_cancel_left (hnew.symm.trans hnew')
  refine ⟨new, hnew, fun e he m hm => ⟨hhandler e he, fun k hk => ?_⟩⟩
  obtain ⟨a, ha, rfl⟩ := hsteps e he k hk
  have := hsynced.step a ha
  omega

theorem move_joined (hsynced : Synced w) (hsteps : w.steps ≠ 0) (hmove : Move w w') :
    w'.joined = w.joined ∧ (w'.session.ended = false → w.session.ended = false) := by
  refine ⟨?_, fun hlive => ?_⟩
  · cases hmove with
    | joined c hjoinable hnew => exact absurd (synced_joined hsynced hjoinable hnew).1 hsteps
    | ended =>
        unfold World.endSession
        split <;> rfl
    | resolved pre post a e rx now _ _ =>
        obtain ⟨_, _, _, _, heq⟩ | ⟨_, _, _, _, heq⟩ | ⟨_, heq⟩ :=
          onResolved_cases { w with running := pre ++ post } a rx now <;> rw [heq]
    | _ => rfl
  · by_contra hended
    have := (move_quiet hmove).ended (by simpa using hended)
    simp [this] at hlive

theorem initializing_move (h : Initializing w G P n cs events second) (hsynced : Synced w)
    (hmove : Move w w') :
    (second = none → ∃ events', Initializing w' G P n cs events' none) ∧
      (second ≠ none → ∃ later, Initializing w' G P n cs events (some later)) := by
  have hquiet := move_quiet hmove
  have hsteps : w.steps ≠ 0 := by
    have := h.steps
    omega
  obtain ⟨hjoined, hlive⟩ := move_joined hsynced hsteps hmove
  obtain ⟨new, hnew, honly⟩ := move_onlyIn hsynced hmove
  constructor
  · rintro rfl
    refine ⟨events ++ new, ?_⟩
    exact {
      phase := by simp [hnew, h.phase, laterEvents]
      garbage := h.garbage
      pieces := h.pieces
      steps := hquiet.steps.trans h.steps
      past := hquiet.past ▸ h.past
      first := by
        intro e he
        rcases List.mem_append.mp he with hold | hlast
        · exact h.first e hold
        · exact honly e hlast n h.steps.symm
      later := by simp
      members := hjoined ▸ ⟨h.members.1, fun hw => h.members.2 (hlive hw)⟩
      laterMembers := by simp }
  · intro hsome
    obtain ⟨⟨cs', events'⟩, rfl⟩ := Option.ne_none_iff_exists'.mp hsome
    refine ⟨(cs', events' ++ new), ?_⟩
    have hmembers := h.laterMembers cs' events' rfl
    exact {
      phase := by simp [hnew, h.phase, laterEvents]
      garbage := h.garbage
      pieces := h.pieces
      steps := hquiet.steps.trans h.steps
      past := hquiet.past ▸ h.past
      first := h.first
      later := by
        intro cs₂ events₂ heq e he
        obtain ⟨rfl, rfl⟩ : cs' = cs₂ ∧ events' ++ new = events₂ := by simpa using heq
        rcases List.mem_append.mp he with hold | hlast
        · exact h.later _ _ rfl e hold
        · exact honly e hlast (n + 1) h.steps.symm
      members := hjoined ▸ ⟨h.members.1, fun hw => h.members.2 (hlive hw)⟩
      laterMembers := by
        intro cs₂ events₂ heq
        obtain ⟨rfl, rfl⟩ : cs' = cs₂ ∧ events' ++ new = events₂ := by simpa using heq
        exact hjoined ▸ ⟨hmembers.1, fun hw => hmembers.2 (hlive hw)⟩ }

end Moves

/-! ## Every reachable state -/

theorem staged_init : Staged init := by
  constructor <;> simp [init]

/-- Only the forwarding loops change their frame when a byte has been transferred. -/
theorem eq_of_onTransfer_eq {frame frame' : Frame} {b₁ b₂ : Byte} {now : Int}
    (hdifficulty : ∀ t d₁ d₂, frame ≠ .difficultyForward t d₁ d₂)
    (hplaying : ∀ s₁ s₂ roundOver, frame ≠ .playingForward s₁ s₂ roundOver)
    (h : onTransfer b₁ b₂ now frame' = frame) : frame' = frame := by
  cases frame' with
  | difficultyForward t d₁ d₂ =>
      simp only [onTransfer] at h
      split at h <;> exact absurd h.symm (hdifficulty _ _ _)
  | playingForward s₁ s₂ roundOver => exact absurd h.symm (hplaying _ _ _)
  | _ => exact h

theorem suspended_of_sameFrame {handler : Handler} {frame : Frame} {b : Barrier}
    (h : SameFrame handler (.suspended frame b))
    (hdifficulty : ∀ t d₁ d₂, frame ≠ .difficultyForward t d₁ d₂)
    (hplaying : ∀ s₁ s₂ roundOver, frame ≠ .playingForward s₁ s₂ roundOver) :
    ∃ b', handler = .suspended frame b' := by
  cases h with
  | suspended _ b' => exact ⟨b', rfl⟩
  | transferred frame' b' _ b₁ b₂ now =>
      have hframe := eq_of_onTransfer_eq hdifficulty hplaying rfl
      exact ⟨b', congrArg (Handler.suspended · b') hframe⟩

theorem staged_move {w w' : World} (h : Staged w) (hsynced : Synced w) (hmove : Move w w') :
    Staged w' := by
  have hquiet := move_quiet hmove
  have hsame := hquiet.handler
  obtain ⟨new, hnew, hhandler⟩ := hquiet.phase
  have hfirst : ∀ {G P n cs events}, Initializing w G P n cs events none →
      ∃ G P n cs events, Initializing w' G P n cs events none := fun hi =>
    ⟨_, _, _, _, (initializing_move hi hsynced hmove).1 rfl⟩
  have hsecond : ∀ {G P n cs events later}, Initializing w G P n cs events (some later) →
      ∃ G P n cs events later, Initializing w' G P n cs events (some later) := fun hi =>
    ⟨_, _, _, _, _, (initializing_move hi hsynced hmove).2 (by simp)⟩
  constructor
  case staged =>
      intro hhead
      rw [hnew, List.head?_append] at hhead
      cases hold : w.phase.head? with
      | none =>
          rw [hold, Option.none_or] at hhead
          simpa [ofHandler] using hhandler _ (List.mem_of_mem_head? hhead)
      | some e =>
          rw [hold, Option.some_or] at hhead
          obtain ⟨G, P, n, cs, events, second, hi⟩ := h.staged (hold.trans hhead)
          cases second with
          | none =>
              obtain ⟨G, P, n, cs, events, hi'⟩ := hfirst hi
              exact ⟨G, P, n, cs, events, none, hi'⟩
          | some later =>
              obtain ⟨G, P, n, cs, events, later', hi'⟩ := hsecond hi
              exact ⟨G, P, n, cs, events, some later', hi'⟩
  case sendGlobalData =>
      intro b hhandler
      rw [hhandler] at hsame
      obtain ⟨b', hb'⟩ := suspended_of_sameFrame hsame (by simp) (by simp)
      obtain ⟨_, _, _, _, _, hi⟩ := h.sendGlobalData b' hb'
      exact hfirst hi
  case startGame =>
      intro b hhandler
      rw [hhandler] at hsame
      obtain ⟨b', hb'⟩ := suspended_of_sameFrame hsame (by simp) (by simp)
      obtain ⟨_, _, _, _, _, _, hi⟩ := h.startGame b' hb'
      exact hsecond hi
  case playing =>
      intro hhandler hstate
      rw [hhandler] at hsame
      generalize hold : w.handler = handler at hsame
      cases hsame
      obtain ⟨_, _, _, _, _, _, hi⟩ := h.playing hold (hquiet.state ▸ hstate)
      exact hsecond hi
  case head =>
      intro hbusy
      have hhead := h.head fun hold => by
        rw [hold] at hsame
        generalize hlast : w'.handler = handler' at hsame
        cases hsame
        exact hbusy hlast
      rw [hnew, hquiet.state, List.head?_append, hhead]
      rfl

/-! ### Handlers -/

/-- Where a handler goes on without returning it leaves the state alone, and only
`handleSendingInitializationData` comes to its own awaits. -/
theorem resume_next (s : TetrisGameSession) (now : Int) {frame frame' : Frame}
    (h : (resume s now frame).next.frame = some frame') :
    (resume s now frame).session.state = s.state ∧ frame' ≠ .sendGlobalData ∧
      (frame' = .startGame → frame = .sendGlobalData) := by
  rw [resume_state]
  cases frame with
  | difficultyForward t d₁ d₂ =>
      simp only [resume, difficultyLoop] at h
      split at h <;> obtain rfl := Option.some.inj h <;> simp
  | playingForward s₁ s₂ roundOver => cases roundOver <;> obtain rfl := Option.some.inj h <;> simp
  | roundOverSleep =>
      simp only [resume, restart] at h
      split at h <;> obtain rfl := Option.some.inj h <;> simp
  | sendGlobalData =>
      obtain rfl := Option.some.inj h
      simp
  | playingSleep =>
      obtain rfl := Option.some.inj h
      simp
  | _ => simp [resume, setState, Next.frame] at h

/-- Only the handler that sends the data returns with the state `Playing`. -/
theorem resume_done {s : TetrisGameSession} {frame : Frame} (hframe : FrameScore s frame)
    (now : Int) (h : (resume s now frame).next = .done) (hne : frame ≠ .startGame) :
    (resume s now frame).session.state ≠ .playing := by
  rw [resume_state]
  cases frame with
  | difficultyForward t d₁ d₂ =>
      simp only [resume, difficultyLoop] at h
      split at h <;> simp [forwardClientBytes, forAllClients] at h
  | playingForward s₁ s₂ roundOver =>
      cases roundOver <;> simp [resume, finishRound, forwardClientBytes] at h
  | roundOverSleep =>
      simp only [resume, restart] at h
      split at h <;> simp [forAllClients] at h
  | roundOverRestart nextState => rcases hframe.2 with ⟨rfl, _⟩ | ⟨rfl, _⟩ <;> simp
  | startGame => exact absurd rfl hne
  | sendGlobalData => simp [resume, forAllClients] at h
  | playingSleep => simp [resume, forwardClientBytes] at h
  | _ => simp

theorem start_next (s : TetrisGameSession) (draws : Draws) (now₀ now₁ : Int)
    (hstate : s.state ≠ .sendingInitializationData) {frame : Frame}
    (h : (start s draws now₀ now₁).next.frame = some frame) :
    (start s draws now₀ now₁).session.state = s.state ∧
      frame ≠ .sendGlobalData ∧ frame ≠ .startGame := by
  unfold start at h ⊢
  cases hs : s.state with
  | waitingForPlayers =>
      simp only [hs, handleWaitingForPlayers] at h
      split at h <;> simp [setState, Next.frame] at h
  | sendingInitializationData => exact absurd hs hstate
  | difficultySelection =>
      simp only [hs, handleDifficultySelection, difficultyLoop] at h ⊢
      split at h <;> rename_i hloop <;> obtain rfl := Option.some.inj h <;>
        simp [hloop, forwardClientBytes, forAllClients]
  | playersConnected =>
      simp only [hs] at h
      obtain rfl := Option.some.inj h
      simp [handlePlayersConnected, forAllClients, hs]
  | playing =>
      simp only [hs] at h
      obtain rfl := Option.some.inj h
      simp [handlePlaying, hs]
  | roundOver =>
      simp only [hs] at h
      obtain rfl := Option.some.inj h
      simp [handleRoundOver, hs]

theorem start_done (s : TetrisGameSession) (draws : Draws) (now₀ now₁ : Int)
    (h : (start s draws now₀ now₁).next = .done) :
    (start s draws now₀ now₁).session.state ≠ .playing := by
  rcases start_state s draws now₀ now₁ with hsame | ⟨_, hconnected⟩
  · rw [hsame]
    intro hplaying
    simp [start, hplaying, handlePlaying] at h
  · simp [hconnected]

/-- Code of the other handlers. -/
theorem staged_other {w : World} {r : Resumption}
    (hhead : w.phase.head? = some (.handlerStarted w.session.state))
    (hstate : w.session.state ≠ .sendingInitializationData)
    (hnext : ∀ frame, r.next.frame = some frame →
      r.session.state = w.session.state ∧ frame ≠ .sendGlobalData ∧ frame ≠ .startGame)
    (hdone : r.next = .done → r.session.state ≠ .playing) : Staged (w.perform r) := by
  have hperformed := performed w r
  obtain ⟨new, hphase, _⟩ := hperformed.phase
  have hhead' : (w.perform r).phase.head? = some (.handlerStarted w.session.state) := by
    rw [hphase, List.append_assoc, List.head?_append, hhead]
    rfl
  have hframe : ∀ frame b, (w.perform r).handler = .suspended frame b →
      r.session.state = w.session.state ∧ frame ≠ .sendGlobalData ∧ frame ≠ .startGame := by
    intro frame b hhandler
    rcases hperformed.handler with ⟨_, hold⟩ | ⟨frame', b', hsome, hold⟩ | ⟨_, hold⟩
    · simp [hold] at hhandler
    · obtain ⟨rfl, _⟩ : frame' = frame ∧ b' = b := by simpa [hold] using hhandler
      exact hnext frame' hsome
    · simp [hold] at hhandler
  constructor
  case staged =>
      intro hinit
      rw [hhead'] at hinit
      exact absurd (by simpa using hinit) hstate
  case sendGlobalData => exact fun b hhandler => absurd rfl (hframe _ b hhandler).2.1
  case startGame => exact fun b hhandler => absurd rfl (hframe _ b hhandler).2.2
  case playing =>
      intro hhandler hplaying
      rcases hperformed.handler with ⟨hnone, _⟩ | ⟨frame', b', _, hold⟩ | ⟨_, hold⟩
      · exact absurd (hperformed.state ▸ hplaying) (hdone hnone)
      · simp [hold] at hhandler
      · simp [hold] at hhandler
  case head =>
      intro hbusy
      rw [hhead', hperformed.state]
      have hsome : ∃ frame, r.next.frame = some frame := by
        rcases hperformed.handler with ⟨_, hold⟩ | ⟨frame, _, hsome, _⟩ | ⟨hne, _⟩
        · exact absurd hold hbusy
        · exact ⟨frame, hsome⟩
        · cases hr : r.next with
          | done => exact absurd hr hne
          | sleep frame => exact ⟨frame, rfl⟩
          | step task frame => exact ⟨frame, rfl⟩
      obtain ⟨frame, hframe'⟩ := hsome
      rw [(hnext frame hframe').1]

/-- `handleSendingInitializationData` generates the data and has it sent. -/
theorem handleState_sendingData {w : World} (hidle : w.running = [])
    (hstate : w.session.state = .sendingInitializationData) (draws : Draws) (now₀ now₁ : Int) :
    w.handleState draws now₀ now₁ =
      let garbage := generateGarbageLines draws
      let pieces := generatePieces garbage.2
      { w with
        past := w.log
        phase := opening garbage.1 pieces.1 w.steps w.session.clients
        steps := w.steps + 1
        running := w.session.clients.map (callbackActivity w.steps
          (sendGlobalData garbage.1 pieces.1) TetrisCtrlByte.master)
        handler := .suspended .sendGlobalData ⟨w.steps, w.session.clients, false⟩ } := by
  simp only [World.handleState, start, hstate, handleSendingInitializationData, World.perform,
    World.startTask, World.startCallbacks, sendGlobalData, nextByte, hidle]
  rfl

theorem staged_sendingData {w : World} (htracked : Tracked w) (hsynced : Synced w)
    (hhandler : w.handler = .scheduled) (hstate : w.session.state = .sendingInitializationData)
    (draws : Draws) (now₀ now₁ : Int) : Staged (w.handleState draws now₀ now₁) := by
  have hidle : w.running = [] := running_eq_nil (by simpa [hhandler, Awaits] using hsynced.awaits)
  have hmembers : (w.session.clients = [] ∨ w.session.clients = w.joined) ∧
      (w.session.ended = false → w.session.clients = w.joined) := by
    rw [hsynced.members]
    split <;> simp_all
  have hi : Initializing (w.handleState draws now₀ now₁) (generateGarbageLines draws).1
      (generatePieces (generateGarbageLines draws).2).1 w.steps w.session.clients [] none := by
    rw [handleState_sendingData hidle hstate]
    exact {
      phase := rfl
      garbage := length_generateGarbageLines draws
      pieces := length_generatePieces _
      steps := rfl
      past := htracked.fresh
      first := by simp
      later := by simp
      members := hmembers
      laterMembers := by simp }
  constructor
  case staged => exact fun _ => ⟨_, _, _, _, _, _, hi⟩
  case sendGlobalData => exact fun _ _ => ⟨_, _, _, _, _, hi⟩
  case startGame =>
      rw [handleState_sendingData hidle hstate]
      simp
  case playing =>
      rw [handleState_sendingData hidle hstate]
      simp
  case head =>
      intro _
      rw [hi.head, handleState_sendingData hidle hstate]
      exact congrArg _ (congrArg _ hstate.symm)

/-- Once both clients have all data, the start sequence is sent. -/
theorem perform_sendGlobalData {w : World} (hidle : w.running = []) (now : Int) :
    w.perform (resume w.session now .sendGlobalData) = { w with
      steps := w.steps + 1
      phase := w.phase ++
        [.begun w.steps w.session.clients (.forAllClients [.sendBuffer startSequence])]
      running := w.session.clients.map
        (callbackActivity w.steps [.sendBuffer startSequence] 0x30)
      handler := .suspended .startGame ⟨w.steps, w.session.clients, false⟩ } := by
  simp only [World.perform, resume, Handlers.forAllClients, World.startTask, World.startCallbacks,
    startSequence, nextByte, hidle, List.append_nil, List.nil_append]

theorem staged_sendGlobalData {w : World} (h : Staged w) (hsynced : Synced w) {b : Barrier}
    (hhandler : w.handler = .suspended .sendGlobalData b) (hidle : w.running = []) (now : Int) :
    Staged (w.perform (resume w.session now .sendGlobalData)) := by
  obtain ⟨G, P, n, cs, events, hold⟩ := h.sendGlobalData b hhandler
  have hstate := h.head (by simp [hhandler])
  have hmembers : (w.session.clients = [] ∨ w.session.clients = w.joined) ∧
      (w.session.ended = false → w.session.clients = w.joined) := by
    rw [hsynced.members]
    split <;> simp_all
  have hsteps : w.steps = n + 1 := hold.steps
  have hi : Initializing (w.perform (resume w.session now .sendGlobalData)) G P n cs events
      (some (w.session.clients, [])) := by
    rw [perform_sendGlobalData hidle]
    exact {
      phase := by simp [hold.phase, laterEvents, hsteps]
      garbage := hold.garbage
      pieces := hold.pieces
      steps := by simp [hsteps]
      past := hold.past
      first := hold.first
      later := by simp
      members := hold.members
      laterMembers := by
        intro cs' events' heq
        obtain ⟨rfl, _⟩ : w.session.clients = cs' ∧ [] = events' := by simpa using heq
        exact hmembers }
  constructor
  case staged => exact fun _ => ⟨_, _, _, _, _, _, hi⟩
  case sendGlobalData =>
      rw [perform_sendGlobalData hidle]
      simp
  case startGame => exact fun _ _ => ⟨_, _, _, _, _, _, hi⟩
  case playing => exact fun _ _ => ⟨_, _, _, _, _, _, hi⟩
  case head =>
      intro _
      rw [perform_sendGlobalData hidle, List.head?_append, hstate]
      rfl

theorem staged_startGame {w : World} (h : Staged w) {b : Barrier}
    (hhandler : w.handler = .suspended .startGame b) (now : Int) :
    Staged (w.perform (resume w.session now .startGame)) := by
  obtain ⟨G, P, n, cs, events, later, hold⟩ := h.startGame b hhandler
  have hi : Initializing (w.perform (resume w.session now .startGame)) G P n cs events
      (some later) := { hold with phase := by simp [World.perform, resume, setState, hold.phase] }
  constructor
  case staged => exact fun _ => ⟨_, _, _, _, _, _, hi⟩
  case playing => exact fun _ _ => ⟨_, _, _, _, _, _, hi⟩
  all_goals simp [World.perform, resume, setState]

theorem staged_resume {w : World} (h : Staged w) (hsynced : Synced w) (hscore : ScoreInv w)
    {frame : Frame} {b : Barrier} (now : Int) (hhandler : w.handler = .suspended frame b)
    (hcontinues : Continues w (resume w.session now frame)) :
    Staged (w.perform (resume w.session now frame)) := by
  by_cases hfirst : frame = .sendGlobalData
  · subst hfirst
    exact staged_sendGlobalData h hsynced hhandler hcontinues.idle now
  by_cases hsecond : frame = .startGame
  · subst hsecond
    exact staged_startGame h hhandler now
  have hframe := hscore.frame frame b hhandler
  refine staged_other (h.head (by simp [hhandler])) ?_ ?_ ?_
  · cases frame <;> simp_all [FrameScore]
  · intro frame' hnext
    obtain ⟨hstate, hne, hstart⟩ := resume_next w.session now hnext
    exact ⟨hstate, hne, fun heq => hfirst (hstart heq)⟩
  · exact fun hdone => resume_done hframe now hdone hsecond

theorem staged_handleState {w : World} (htracked : Tracked w) (hsynced : Synced w)
    (hhandler : w.handler = .scheduled) (draws : Draws) (now₀ now₁ : Int) :
    Staged (w.handleState draws now₀ now₁) := by
  by_cases hstate : w.session.state = .sendingInitializationData
  · exact staged_sendingData htracked hsynced hhandler hstate draws now₀ now₁
  · refine staged_other (w := { w with past := w.log, phase := [.handlerStarted w.session.state] })
      rfl hstate ?_ ?_
    · exact fun frame hnext => start_next w.session draws now₀ now₁ hstate hnext
    · exact start_done w.session draws now₀ now₁

theorem staged_reachable {w : World} (h : Reachable (Fires step) init w) : Staged w := by
  have hall := (invariant_of_moves (I := fun w => (Tracked w ∧ ScoreInv w) ∧ Staged w)
    ⟨⟨tracked_init, scoreInv_reachable (.refl _)⟩, staged_init⟩ ?_ ?_ ?_ h).2
  · exact hall.2
  · rintro w draws now₀ now₁ hsynced ⟨⟨htracked, hscore⟩, _⟩ hhandler
    exact ⟨⟨tracked_handleState htracked hsynced hhandler draws now₀ now₁,
      scoreInv_handleState hscore hhandler draws now₀ now₁⟩,
      staged_handleState htracked hsynced hhandler draws now₀ now₁⟩
  · rintro w frame b now hsynced ⟨⟨htracked, hscore⟩, hstaged⟩ hhandler hcontinues
    have hframe := hscore.frame frame b hhandler
    exact ⟨⟨tracked_perform htracked hcontinues,
      scoreInv_perform (keeps_resume hscore.scored hframe now) hscore.sum⟩,
      staged_resume hstaged hsynced hscore now hhandler hcontinues⟩
  · rintro w w' hsynced ⟨⟨htracked, hscore⟩, hstaged⟩ hmove
    exact ⟨⟨tracked_move htracked hsynced hmove, scoreInv_move hscore hmove⟩,
      staged_move hstaged hsynced hmove⟩

/-! ## What the clients are sent -/

def sentToByte (c : ClientId) (e : Event) : Option Byte :=
  match e with
  | .sent _ d b => if d = c then some b else none
  | _ => none

def answeredByByte (c : ClientId) (e : Event) : Option Byte :=
  match e with
  | .answered _ d b => if d = c then some b else none
  | _ => none

/-- The bytes sent to client `c`, in order. -/
def sentTo (c : ClientId) (events : List Event) : List Byte := events.filterMap (sentToByte c)

/-- The bytes client `c` has answered with, in order. -/
def answeredBy (c : ClientId) (events : List Event) : List Byte :=
  events.filterMap (answeredByByte c)

section Streams

variable {n m : Nat} {c : ClientId} {events events' : List Event}

@[simp] theorem sentTo_append :
    sentTo c (events ++ events') = sentTo c events ++ sentTo c events' := by
  simp [sentTo]

@[simp] theorem answeredBy_append :
    answeredBy c (events ++ events') = answeredBy c events ++ answeredBy c events' := by
  simp [answeredBy]

theorem sentTo_eq_sentIn (h : ∀ e ∈ events, OnlyIn n e) : sentTo c events = sentIn n c events := by
  refine List.filterMap_congr fun e he => ?_
  have hstep := (h e he).2
  cases e with
  | sent k d b =>
      obtain rfl := hstep k rfl
      simp [sentToByte, sentByte]
  | _ => rfl

theorem answeredBy_eq_answeredIn (h : ∀ e ∈ events, OnlyIn n e) :
    answeredBy c events = answeredIn n c events := by
  refine List.filterMap_congr fun e he => ?_
  have hstep := (h e he).2
  cases e with
  | answered k d b =>
      obtain rfl := hstep k rfl
      simp [answeredByByte, answeredByte]
  | _ => rfl

theorem not_concerns_of_onlyIn {e : Event} (h : OnlyIn m e) (hne : m ≠ n) :
    concerns n c e = false :=
  not_concerns_of_stepOf fun hstep => hne (h.2 n hstep).symm

end Streams

section Phase

variable {w : World} {G P : List Byte} {n : Nat} {cs : List ClientId} {events : List Event}
  {second : Second}

/-- The events of the first step: those before the second one and no others. -/
theorem Initializing.sentIn_first (h : Initializing w G P n cs events second) (c : ClientId) :
    sentIn n c w.log = sentTo c (opening G P n cs ++ events) ∧
      answeredIn n c w.log = answeredBy c (opening G P n cs ++ events) := by
  have hpast : ∀ e ∈ w.past, concerns n c e = false := fun e he =>
    not_concerns_of_stepOf fun hstep => absurd (h.past e he n hstep) (Nat.lt_irrefl _)
  have hlater : ∀ e ∈ laterEvents n second, concerns n c e = false := by
    intro e he
    cases second with
    | none => simp [laterEvents] at he
    | some later =>
        obtain ⟨cs', events'⟩ := later
        rcases List.mem_cons.mp he with rfl | he
        · rfl
        · exact not_concerns_of_onlyIn (h.later cs' events' rfl e he) (by omega)
  simp only [World.log, h.phase, sentIn_append, answeredIn_append, sentIn_eq_nil hpast,
    answeredIn_eq_nil hpast, sentIn_eq_nil hlater, answeredIn_eq_nil hlater,
    sentTo_append, answeredBy_append, sentTo_eq_sentIn h.first, answeredBy_eq_answeredIn h.first,
    List.append_nil, List.nil_append]
  constructor <;> rfl

/-- The events of the second step. -/
theorem Initializing.sentIn_second (h : Initializing w G P n cs events second) (c : ClientId) :
    sentIn (n + 1) c w.log = sentTo c (laterEvents n second) ∧
      answeredIn (n + 1) c w.log = answeredBy c (laterEvents n second) := by
  have hpast : ∀ e ∈ w.past, concerns (n + 1) c e = false := fun e he =>
    not_concerns_of_stepOf fun hstep => by
      have := h.past e he _ hstep
      omega
  have hfirst : ∀ e ∈ events, concerns (n + 1) c e = false := fun e he =>
    not_concerns_of_onlyIn (h.first e he) (by omega)
  simp only [World.log, h.phase, sentIn_append, answeredIn_append, sentIn_eq_nil hpast,
    answeredIn_eq_nil hpast, sentIn_eq_nil hfirst, answeredIn_eq_nil hfirst, List.nil_append]
  cases second with
  | none => constructor <;> rfl
  | some later =>
      obtain ⟨cs', events'⟩ := later
      constructor
      · exact (sentTo_eq_sentIn (c := c) (h.later cs' events' rfl)).symm
      · exact (answeredBy_eq_answeredIn (c := c) (h.later cs' events' rfl)).symm

theorem Initializing.sentTo_phase (h : Initializing w G P n cs events second) (c : ClientId) :
    sentTo c w.phase = sentIn n c w.log ++ sentIn (n + 1) c w.log ∧
      answeredBy c w.phase = answeredIn n c w.log ++ answeredIn (n + 1) c w.log := by
  rw [(h.sentIn_first c).1, (h.sentIn_first c).2, (h.sentIn_second c).1, (h.sentIn_second c).2,
    h.phase]
  simp

/-- The first step is the only one with its number. -/
theorem Initializing.begun_first (h : Initializing w G P n cs events second)
    {cs' : List ClientId} {task : Task} (hmem : .begun n cs' task ∈ w.log) : cs' = cs := by
  rw [World.log, h.phase] at hmem
  simp only [List.mem_append] at hmem
  rcases hmem with hpast | hopening | hfirst | hlater
  · exact absurd (h.past _ hpast n rfl) (Nat.lt_irrefl _)
  · obtain ⟨_, rfl, _⟩ : n = n ∧ cs' = cs ∧ task = .forAllClients (sendGlobalData G P) := by
      simpa [opening] using hopening
    rfl
  · simpa [ofHandler] using (h.first _ hfirst).1
  · cases second with
    | none => simp [laterEvents] at hlater
    | some later =>
        obtain ⟨cs₂, events₂⟩ := later
        rcases List.mem_cons.mp hlater with heq | hlater
        · simp at heq
        · simpa [ofHandler] using (h.later cs₂ events₂ rfl _ hlater).1

end Phase

/-! ## The two steps of a client -/

section Client

variable {w : World} {G P : List Byte} {n : Nat} {cs : List ClientId} {events : List Event}
  {second : Second}

theorem Initializing.mem_opening (h : Initializing w G P n cs events second) :
    .begun n cs (.forAllClients (sendGlobalData G P)) ∈ w.log := by
  simp [World.log, h.phase, opening]

/-- The second step of a client is a transcript of the start sequence. -/
theorem Initializing.second_transcript (h : Initializing w G P n cs events second)
    (htracked : Tracked w) (c : ClientId) :
    sentIn (n + 1) c w.log <+: startSequence ∧
      (answeredIn (n + 1) c w.log).length ≤ (sentIn (n + 1) c w.log).length ∧
      (sentIn (n + 1) c w.log).length ≤ (answeredIn (n + 1) c w.log).length + 1 ∧
      ((∃ cs' events', second = some (cs', events') ∧ c ∈ cs') → .completed (n + 1) c ∈ w.log →
        sentIn (n + 1) c w.log = startSequence ∧
          (answeredIn (n + 1) c w.log).length = startSequence.length) := by
  cases second with
  | none =>
      obtain ⟨hsent, hanswered⟩ := h.sentIn_second c
      simp [hsent, hanswered, laterEvents, sentTo, answeredBy]
  | some later =>
      obtain ⟨cs', events'⟩ := later
      have hmem : .begun (n + 1) cs' (.forAllClients [.sendBuffer startSequence]) ∈ w.log := by
        simp [World.log, h.phase, laterEvents]
      obtain ⟨xs, q, out, htranscript, hsent, hanswered, hout, hcompleted⟩ :=
        htracked.transcript hmem c
      obtain ⟨hle, hfull⟩ := sent_of_sendBuffer (by simp [startSequence]) htranscript hout
      have hlength := hout.length_le
      rw [hsent, hanswered]
      refine ⟨hle, by simp, by simpa using hlength, ?_⟩
      rintro ⟨cs₂, events₂, heq, hc⟩ hdone
      obtain ⟨rfl, _⟩ : cs' = cs₂ ∧ events' = events₂ := by simpa using heq
      have hnone := hcompleted hc hdone
      have hxs := hfull hnone
      rw [hout.eq_nil hnone, List.append_nil]
      exact ⟨hxs, by rw [← hxs]; simp⟩

/-- Before anything of the second step is exchanged, every client has completed
the first. -/
theorem Initializing.idle_or_completed (h : Initializing w G P n cs events second)
    (hreachable : Reachable (Fires step) init w) (c : ClientId) :
    (sentIn (n + 1) c w.log = [] ∧ answeredIn (n + 1) c w.log = []) ∨
      (c ∈ w.joined ∧ cs = w.joined ∧ ∀ c' ∈ w.joined, .completed n c' ∈ w.log) := by
  have htracked := tracked_reachable hreachable
  by_cases hnil : sentIn (n + 1) c w.log = []
  · left
    have hle := (h.second_transcript htracked c).2.1
    rw [hnil, List.length_nil, Nat.le_zero, List.length_eq_zero_iff] at hle
    exact ⟨hnil, hle⟩
  · right
    obtain ⟨x, hx⟩ := List.exists_mem_of_ne_nil _ hnil
    obtain ⟨e, he, hsent⟩ := List.mem_filterMap.mp hx
    obtain ⟨pre, post, hlog⟩ := List.append_of_mem he
    cases e with
    | sent m d y =>
        obtain ⟨rfl, rfl⟩ : m = n + 1 ∧ d = c := by
          by_contra hne
          simp [sentByte, hne] at hsent
        obtain ⟨_, hjoined, _, hearlier⟩ :=
          (session_in_step hreachable).sent_in_step _ _ _ _ _ hlog
        obtain ⟨⟨task, hbegun⟩, hcompleted⟩ := hearlier n (Nat.lt_succ_self n)
        have hmem : .begun n w.joined task ∈ w.log := by
          rw [hlog]
          exact List.mem_append_left _ hbegun
        refine ⟨hjoined, (h.begun_first hmem).symm, fun c' hc' => ?_⟩
        rw [hlog]
        exact List.mem_append_left _ (hcompleted c' hc')
    | _ => simp [sentByte] at hsent

/-- What client `c` has exchanged in the step that sends the data, which has polled
it `a` and `b` times. -/
structure FirstStep (w : World) (G P : List Byte) (n : Nat) (cs : List ClientId) (c : ClientId)
    (a b : Nat) : Prop where
  one_le : 1 ≤ a ∧ 1 ≤ b
  sent : sentIn n c w.log <+: dataStream TetrisCtrlByte.master G P a b
  first : FirstAt TetrisCtrlByte.slave a (answeredIn n c w.log)
  second : FirstAt TetrisCtrlByte.slave b ((answeredIn n c w.log).drop (a + G.length))
  answered_le : (answeredIn n c w.log).length ≤ (sentIn n c w.log).length
  sent_le : (sentIn n c w.log).length ≤ (answeredIn n c w.log).length + 1
  complete : c ∈ cs → .completed n c ∈ w.log →
    sentIn n c w.log = dataStream TetrisCtrlByte.master G P a b ∧
      (answeredIn n c w.log).length = (dataStream TetrisCtrlByte.master G P a b).length

theorem Initializing.first_transcript (h : Initializing w G P n cs events second)
    (htracked : Tracked w) (c : ClientId) : ∃ a b, FirstStep w G P n cs c a b := by
  obtain ⟨xs, q, out, htranscript, hsent, hanswered, hout, hcompleted⟩ :=
    htracked.transcript h.mem_opening c
  have hG : G ≠ [] := List.ne_nil_of_length_pos (by rw [h.garbage]; omega)
  have hP : P ≠ [] := List.ne_nil_of_length_pos (by rw [h.pieces]; omega)
  obtain ⟨a, b, hstreams⟩ := streams_of_transcript hG hP htranscript
  refine ⟨a, b, hstreams.one_le, ?_, ?_, ?_, ?_, ?_, ?_⟩
  · rw [hsent]
    exact hstreams.sent out hout
  · rw [hanswered]
    exact hstreams.first
  · rw [hanswered]
    exact hstreams.second
  · simp [hsent, hanswered]
  · simpa [hsent, hanswered] using hout.length_le
  · intro hc hdone
    have hnone := hcompleted hc hdone
    have hxs := hstreams.complete hnone
    rw [hsent, hanswered, hout.eq_nil hnone, List.append_nil, ← hxs]
    simp

end Client

/-! ## Fairness -/

/-- The bytes sent to one client and its answers: polls up to the first answer
`slave`, the garbage, polls again, the pieces and the start sequence. -/
structure InitStream (G P : List Byte) (a b : Nat) (sent answered : List Byte) : Prop where
  one_le : 1 ≤ a ∧ 1 ≤ b
  stream : sent <+: dataStream TetrisCtrlByte.master G P a b ++ startSequence
  first : FirstAt TetrisCtrlByte.slave a answered
  second : FirstAt TetrisCtrlByte.slave b (answered.drop (a + G.length))
  answered_le : answered.length ≤ sent.length
  sent_le : sent.length ≤ answered.length + 1

/-- Both clients get the same garbage `G` and the same pieces `P`; client `c` is
polled `a c` times before the one and `b c` times before the other. -/
structure FairInitialization (w : World) (G P : List Byte) (a b : ClientId → Nat) : Prop where
  players : w.joined.length = 2
  generated : .generated G P ∈ w.phase
  garbage : G.length = 100
  pieces : P.length = 256
  stream : ∀ c ∈ w.joined, InitStream G P (a c) (b c) (sentTo c w.phase) (answeredBy c w.phase)
  barrier : ∀ pre post m c x, w.phase = pre ++ .sent m c x :: post →
    (dataStream TetrisCtrlByte.master G P (a c) (b c)).length ≤ (sentTo c pre).length →
    ∀ c' ∈ w.joined, (dataStream TetrisCtrlByte.master G P (a c') (b c')).length ≤
      (answeredBy c' pre).length
  complete : w.session.state = .playing → w.session.ended = false → ∀ c ∈ w.joined,
    sentTo c w.phase = dataStream TetrisCtrlByte.master G P (a c) (b c) ++ startSequence ∧
      (answeredBy c w.phase).length = (sentTo c w.phase).length

section Fair

variable {w : World} {G P : List Byte} {n : Nat} {cs : List ClientId} {events : List Event}
  {second : Second} {a b : ClientId → Nat}

theorem initStream (h : Initializing w G P n cs events second)
    (hreachable : Reachable (Fires step) init w) (c : ClientId)
    (hfirst : FirstStep w G P n cs c (a c) (b c)) :
    InitStream G P (a c) (b c) (sentTo c w.phase) (answeredBy c w.phase) := by
  obtain ⟨hsent, hanswered⟩ := h.sentTo_phase c
  rw [hsent, hanswered]
  obtain ⟨hsecond, hle, hle', _⟩ := h.second_transcript (tracked_reachable hreachable) c
  rcases h.idle_or_completed hreachable c with ⟨hnone, hnone'⟩ | ⟨hjoined, rfl, hdone⟩
  · rw [hnone, hnone', List.append_nil, List.append_nil]
    exact ⟨hfirst.one_le, hfirst.sent.trans (List.prefix_append _ _), hfirst.first,
      hfirst.second, hfirst.answered_le, hfirst.sent_le⟩
  · obtain ⟨hfull, hlength⟩ := hfirst.complete hjoined (hdone c hjoined)
    have hcount := length_dataStream TetrisCtrlByte.master G P (a c) (b c)
    refine ⟨hfirst.one_le, ?_, hfirst.first.append (by omega) _, ?_, ?_, ?_⟩
    · rw [hfull, List.prefix_append_right_inj]
      exact hsecond
    · rw [List.drop_append_of_le_length (by omega)]
      refine hfirst.second.append ?_ _
      rw [List.length_drop]
      omega
    · rw [List.length_append, List.length_append, hfull, hlength]
      omega
    · rw [List.length_append, List.length_append, hfull, hlength]
      omega

/-- A byte of the start sequence is sent after every answer of both clients to the
data. -/
theorem start_after_data (h : Initializing w G P n cs events second)
    (hreachable : Reachable (Fires step) init w)
    (hfirst : ∀ c, FirstStep w G P n cs c (a c) (b c)) {pre post : List Event} {m : Nat}
    {c : ClientId} {x : Byte} (hphase : w.phase = pre ++ .sent m c x :: post)
    (hdata : (dataStream TetrisCtrlByte.master G P (a c) (b c)).length ≤ (sentTo c pre).length)
    {c' : ClientId} (hc' : c' ∈ w.joined) :
    (dataStream TetrisCtrlByte.master G P (a c') (b c')).length ≤ (answeredBy c' pre).length := by
  have hsplit : (opening G P n cs ++ events) ++ laterEvents n second =
      pre ++ .sent m c x :: post := by
    rw [← hphase, h.phase, List.append_assoc]
  rcases List.append_eq_append_iff.mp hsplit with ⟨t, rfl, hlater⟩ | ⟨t, hearly, hrest⟩
  · have hbusy : sentIn (n + 1) c w.log ≠ [] := by
      rw [(h.sentIn_second c).1, hlater]
      simp [sentTo, sentToByte]
    rcases h.idle_or_completed hreachable c with ⟨hnone, _⟩ | ⟨_, rfl, hdone⟩
    · exact absurd hnone hbusy
    · obtain ⟨_, hlength⟩ := (hfirst c').complete hc' (hdone c' hc')
      rw [answeredBy_append, ← (h.sentIn_first c').2, List.length_append, hlength]
      exact Nat.le_add_right _ _
  · cases t with
    | nil =>
        cases second with
        | none => simp [laterEvents] at hrest
        | some later => simp [laterEvents] at hrest
    | cons e t =>
        -- the byte belongs to the first step, which sends no more than the data
        obtain ⟨rfl, _⟩ := List.cons.inj hrest
        have hle := (hfirst c).sent.length_le
        rw [(h.sentIn_first c).1, hearly, sentTo_append, List.length_append] at hle
        have hone : 1 ≤ (sentTo c (.sent m c x :: t)).length := by
          simp [sentTo, sentToByte]
        omega

theorem Initializing.second_members {later : List ClientId × List Event}
    (h : Initializing w G P n cs events (some later))
    (hlive : w.session.ended = false) {c : ClientId} (hc : c ∈ w.joined) :
    ∃ cs' events', some later = some (cs', events') ∧ c ∈ cs' := by
  obtain ⟨cs', events'⟩ := later
  refine ⟨cs', events', rfl, ?_⟩
  rw [(h.laterMembers cs' events' rfl).2 hlive]
  exact hc

/-- The session goes on to `Playing` with both streams complete. -/
theorem streams_complete {later : List ClientId × List Event}
    (h : Initializing w G P n cs events (some later)) (hreachable : Reachable (Fires step) init w)
    (hhandler : w.handler = .scheduled) (hlive : w.session.ended = false) {c : ClientId}
    (hfirst : FirstStep w G P n cs c (a c) (b c)) (hc : c ∈ w.joined) :
    sentTo c w.phase = dataStream TetrisCtrlByte.master G P (a c) (b c) ++ startSequence ∧
      (answeredBy c w.phase).length = (sentTo c w.phase).length := by
  have hidle : w.working = [] := by
    have hawaits := (synced_reachable hreachable).awaits
    rwa [hhandler] at hawaits
  have hsteps : w.steps = n + 2 := h.steps
  have hrounds : Rounds.Inv (group w) :=
    Rounds.inv_steps Rounds.inv_init (steps_reachable hreachable)
  have hdone : ∀ m < w.steps, .completed m c ∈ w.log := by
    intro m hm
    rcases hrounds.completed (by simp [group, hhandler, failed]) hlive m hm c hc with
      ⟨_, hworking⟩ | hcompleted
    · simp [group, hidle] at hworking
    · exact completed_of_mem_filterMap hcompleted
  have hcs : cs = w.joined := h.members.2 hlive
  obtain ⟨hfull, hlength⟩ := hfirst.complete (hcs ▸ hc) (hdone n (by omega))
  obtain ⟨_, _, _, hsecond⟩ := h.second_transcript (tracked_reachable hreachable) c
  obtain ⟨hfull', hlength'⟩ :=
    hsecond (h.second_members hlive hc) (hdone (n + 1) (by omega))
  obtain ⟨hsent, hanswered⟩ := h.sentTo_phase c
  rw [hsent, hanswered, hfull, hfull']
  exact ⟨rfl, by rw [List.length_append, List.length_append, hlength, hlength']⟩

end Fair

/-- In every call of `handleSendingInitializationData`, at any point of it and right
after it. -/
theorem fair_initialization {w : World} (h : Reachable (Fires step) init w) :
    (w.phase.head? = some (.handlerStarted .sendingInitializationData) →
      ∃ G P a b, FairInitialization w G P a b) ∧
    (w.session.state = .playing → w.handler = .scheduled →
      w.phase.head? = some (.handlerStarted .sendingInitializationData)) := by
  have hstaged := staged_reachable h
  have htracked := tracked_reachable h
  constructor
  · intro hhead
    obtain ⟨G, P, n, cs, events, second, hi⟩ := hstaged.staged hhead
    choose a b hfirst using fun c => hi.first_transcript htracked c
    refine ⟨G, P, a, b, ?_⟩
    exact {
      players := by
        refine (synced_reachable h).joined_length ?_
        rw [hi.steps]
        omega
      generated := by simp [hi.phase, opening]
      garbage := hi.garbage
      pieces := hi.pieces
      stream := fun c _ => initStream hi h c (hfirst c)
      barrier := fun pre post m c x hphase hdata c' hc' =>
        start_after_data hi h hfirst hphase hdata hc'
      complete := by
        intro hplaying hlive c hc
        have hhandler : w.handler = .scheduled := by
          by_contra hbusy
          have hstate := (hstaged.head hbusy).symm.trans hhead
          simp [hplaying] at hstate
        obtain ⟨_, _, n', _, _, _, hi'⟩ := hstaged.playing hhandler hplaying
        obtain ⟨later, rfl⟩ : ∃ later, second = some later := by
          have hn : n = n' := hi.step_unique hi'
          have hsteps := hi.steps.symm.trans hi'.steps
          cases second with
          | none => simp [hn] at hsteps
          | some later => exact ⟨later, rfl⟩
        exact streams_complete hi h hhandler hlive (hfirst c) hc }
  · intro hplaying hhandler
    obtain ⟨_, _, _, _, _, _, hi⟩ := hstaged.playing hhandler hplaying
    exact hi.head

/-- The first client is ready for the garbage while the second one, at its second
poll, is not. -/
theorem fair_initialization_garbage :
    ∃ w, sentTo 7 w.phase = [0x29, 0x2F] ∧ sentTo 8 w.phase = [0x29, 0x29] ∧
      ∃ G P a b, FairInitialization w G P a b := by
  have hrun : (exec step init
      ([.join 7, .join 8, .tick draws₀ 0 0, .tick draws₀ 0 0] ++
        exchange 0 7 0x55 ++ exchange 0 8 0x55 ++ exchange 0 7 0x39 ++ exchange 0 8 0x39 ++
        exchange 0 7 0x50 ++ exchange 0 8 0x50 ++ [.resume 0, .tick draws₀ 0 5000] ++
        exchange 0 7 0x55 ++ exchange 0 8 0x55 ++ [.resume 0, .tick draws₀ 0 0] ++
        exchange 0 7 0x55 ++ exchange 0 8 0 ++ [.write 0 true, .write 1 true])).any
      (fun w => sentTo 7 w.phase = [0x29, 0x2F] ∧ sentTo 8 w.phase = [0x29, 0x29] ∧
        w.phase.head? = some (.handlerStarted .sendingInitializationData)) = true := by
    decide +kernel
  obtain ⟨w, hw, hp⟩ := exists_reachable_of_exec hrun
  simp only [decide_eq_true_eq] at hp
  exact ⟨w, hp.1, hp.2.1, (fair_initialization hw).1 hp.2.2⟩

end GbPlay.Server.Tetris.Initialization
