import Mathlib.Algebra.Order.BigOperators.Group.List
import Mathlib.Algebra.Order.Ring.Nat
import Mathlib.Data.List.Perm.Subperm
import GbPlay.Server.Tetris.Ended
import GbPlay.Server.Tetris.Unanswered

/-!
# Silent clients

Nobody waits for ever: when the clients of a session send nothing any more, the session
ends, in whatever order its timers, sleeps and events come, and its run is over.  There
are only so many steps until then, and until then there is always one to come.
-/

namespace GbPlay.Server.Tetris.Silence

open GbPlay.Library.Runs
open GbPlay.Server.Client GbPlay.Server.Script GbPlay.Server.Tetris.Data
open GbPlay.Server.Tetris.Effects GbPlay.Server.Tetris.Ended GbPlay.Server.Tetris.Handlers
open GbPlay.Server.Tetris.Model GbPlay.Server.Tetris.Moves GbPlay.Server.Tetris.Scoring
open GbPlay.Server.Tetris.Sync GbPlay.Server.Tetris.Unanswered

/-- Whether the activity at index `i` is in an exchange for which `p` holds. -/
def exchangingAt (w : World) (i : Nat) (p : Bool → Exchange → Bool) : Bool :=
  w.running[i]?.any fun a =>
    match a.call with
    | .delaying _ => false
    | .exchanging accepted e => p accepted e

/-- A client sends nothing, and a timer fires once. -/
def Silent (w : World) : Label → Prop
  | .data _ _ _ => False
  | .timeout i => exchangingAt w i (fun _ e => e.timeout = .armed) = true
  | _ => True

instance (w : World) : ∀ l, Decidable (Silent w l)
  | .data _ _ _ => .isFalse id
  | .timeout i => inferInstanceAs (Decidable (exchangingAt w i _ = true))
  | .join _ | .tick _ _ _ | .resume _ | .reject | .write _ _ | .written _ | .writeError _
  | .close _ => .isTrue trivial

/-- What Node does without any client, sooner or later. -/
def Due (w : World) : Label → Prop
  | .tick _ _ _ | .resume _ | .reject => True
  | .write i accepted => ∀ a, w.running[i]? = some a →
      (accepted = true ↔ (w.client a.client).socket = .connected)
  | .writeError i => exchangingAt w i (fun accepted _ => !accepted) = true
  | .timeout i => exchangingAt w i (fun _ e => e.timeout = .armed) = true
  | .close c => (w.client c).socket = .destroyed
  | .join _ | .written _ | .data _ _ _ => False

/-- The session has ended and disconnected its clients, `run` is not called again and
no exchange is left. -/
structure Over (w : World) : Prop where
  ended : w.session.ended = true
  handler : w.handler = .stopped
  running : w.running = []
  disconnected : ∀ c ∈ w.joined, (w.client c).socket ≠ .connected

instance (w : World) : Decidable (Over w) :=
  decidable_of_iff
    (w.session.ended = true ∧ w.handler = .stopped ∧ w.running = [] ∧
      ∀ c ∈ w.joined, (w.client c).socket ≠ .connected)
    ⟨fun ⟨h₁, h₂, h₃, h₄⟩ => ⟨h₁, h₂, h₃, h₄⟩, fun ⟨h₁, h₂, h₃, h₄⟩ => ⟨h₁, h₂, h₃, h₄⟩⟩

variable {w w' : World} {l : Label}

theorem silent_of_due (h : Due w l) : Silent w l := by
  cases l with
  | timeout i => exact h
  | data c rx now => exact h
  | _ => trivial

/-! ## There is something to come -/

/-- The exchange of the first activity goes on. -/
theorem due_of_running (h : Reachable (Fires step) init w) (hrunning : w.running ≠ []) :
    ∃ l, Due w l ∧ (step w l).isSome = true := by
  obtain ⟨a, rest, hsplit⟩ := List.exists_cons_of_ne_nil hrunning
  have hget : w.running[0]? = some a := by rw [hsplit]; rfl
  have hmem : a ∈ w.running := List.mem_of_getElem? hget
  have hlive := (tended_reachable h).live a hmem
  have hsound := (synced_reachable h).sound a hmem
  cases hcall : a.call with
  | delaying b =>
      by_cases hconnected : (w.client a.client).socket = .connected
      · refine ⟨.write 0 true, fun a' ha' => ?_, ?_⟩
        · obtain rfl := Option.some.inj (hget.symm.trans ha')
          simp [hconnected]
        · simp [step, hget, hcall, hconnected]
      · refine ⟨.write 0 false, fun a' ha' => ?_, ?_⟩
        · obtain rfl := Option.some.inj (hget.symm.trans ha')
          simp [hconnected]
        · simp [step, hget, hcall]
  | exchanging accepted e =>
      rw [hcall] at hsound
      obtain ⟨hopen, hsent⟩ := hsound
      cases accepted with
      | false =>
          -- the write has been refused, so its callback brings the error
          have hnot : e.sentByte = false := by
            by_contra hsentByte
            cases hsent (by simpa using hsentByte)
          refine ⟨.writeError 0, by simp [Due, exchangingAt, hget, hcall], ?_⟩
          simp [step, hget, hcall, hnot, hopen.onWrite_error]
      | true =>
          cases hsocket : (w.client a.client).socket with
          | connected =>
              have harmed : e.timeout = .armed := by
                by_contra hfired
                exact hlive.fired true e hcall hfired hsocket
              refine ⟨.timeout 0, by simp [Due, exchangingAt, hget, hcall, harmed], ?_⟩
              simp [step, hget, hcall]
          | destroyed =>
              refine ⟨.close a.client, hsocket, ?_⟩
              simp [step, hsocket, served_reachable h a hmem]
          | closed => cases hlive.closed true e hcall hsocket

/-- Until it is over, something is to come in a session, whatever its clients do. -/
theorem due_of_not_over (h : Reachable (Fires step) init w) (hover : ¬ Over w) :
    ∃ l, Due w l ∧ (step w l).isSome = true := by
  cases hhandler : w.handler with
  | scheduled => exact ⟨.tick draws₀ 0 0, trivial, by simp [step, hhandler]⟩
  | stopped =>
      have hended := (tended_reachable h).stopped hhandler
      apply due_of_running h
      intro hidle
      exact hover ⟨hended, hhandler, hidle, disconnected_reachable h hended⟩
  | suspended frame b =>
      by_cases hrejected : b.rejected = true
      · exact ⟨.reject, trivial, by simp [step, hhandler, hrejected]⟩
      · rw [Bool.not_eq_true] at hrejected
        by_cases hpending : b.pending = []
        · exact ⟨.resume 0, trivial, by simp [step, hhandler, hpending, hrejected]⟩
        · apply due_of_running h
          intro hidle
          have hawaits := (synced_reachable h).awaits
          rw [hhandler] at hawaits
          apply hpending
          rw [eq_nil_of_mem_iff (hawaits hrejected).2.1, World.working, hidle]
          rfl

/-! ## There is only so much to come -/

/-- How often handler code can still run from the start of a state's handler until it waits for
a client or fails: its stretches that begin with a sleep or without clients go on by themselves. -/
def stretchesFromState (state : TetrisGameState) : Nat :=
  match state with
  | .waitingForPlayers => 0
  | .playersConnected => 10
  | .difficultySelection => 8
  | .sendingInitializationData => 6
  | .playing => 3
  | .roundOver => 11

def stretchesFromFrame (frame : Frame) : Nat :=
  match frame with
  | .playersConnected => 9
  | .difficultyForward _ _ _ => 8
  | .difficultyConfirm => 7
  | .sendGlobalData => 5
  | .startGame => 4
  | .playingSleep => 2
  | .playingForward _ _ _ => 13
  | .playingPoll => 12
  | .roundOverSleep => 10
  | .roundOverRestart _ => 9

/-- A handler that waits for clients that are silent can only fail. -/
def stretchesLeft (state : TetrisGameState) (handler : Handler) : Nat :=
  match handler with
  | .scheduled => stretchesFromState state
  | .suspended frame b =>
      if b.pending = [] ∧ b.rejected = false then stretchesFromFrame frame else 1
  | .stopped => 0

def stretchesAfter (r : Resumption) : Nat :=
  match r.next with
  | .done => stretchesFromState r.session.state
  | .sleep frame => stretchesFromFrame frame
  | .step (.forAllClients _) frame => stretchesFromFrame frame
  | .step .forwardClientBytes _ => 1

theorem stretchesFromFrame_pos (frame : Frame) : 1 ≤ stretchesFromFrame frame := by
  cases frame <;> simp [stretchesFromFrame]

theorem stretchesLeft_le (state : TetrisGameState) (handler : Handler) :
    stretchesLeft state handler ≤ 13 := by
  unfold stretchesLeft
  split
  · unfold stretchesFromState
    split <;> omega
  · split
    · unfold stretchesFromFrame
      split <;> omega
    · omega
  · omega

theorem stretchesLeft_reject (state : TetrisGameState) (handler : Handler) (n : Nat) :
    stretchesLeft state (handler.reject n) ≤ stretchesLeft state handler := by
  cases handler with
  | suspended frame b =>
      have hpos := stretchesFromFrame_pos frame
      simp only [Handler.reject]
      split
      · simp only [stretchesLeft, Bool.true_eq_false, and_false, if_false]
        split <;> omega
      · exact le_rfl
  | _ => exact le_rfl

theorem stretchesLeft_perform (w : World) (r : Resumption) :
    stretchesLeft (w.perform r).session.state (w.perform r).handler ≤ stretchesAfter r := by
  cases hnext : r.next with
  | done =>
      simp only [World.perform, stretchesAfter, hnext]
      exact le_rfl
  | sleep frame =>
      simp only [World.perform, stretchesAfter, hnext]
      exact le_rfl
  | step task frame =>
      have hpos := stretchesFromFrame_pos frame
      cases task with
      | forAllClients ops =>
          simp only [World.perform, stretchesAfter, hnext, World.startTask, World.startCallbacks]
          split
          · simp only [stretchesLeft]
            split <;> omega
          · simp [stretchesLeft]
      | forwardClientBytes =>
          simp only [World.perform, stretchesAfter, hnext, World.startTask]
          split
          · simp [stretchesLeft, World.startForwarding]
          · exact Nat.zero_le _

theorem stretchesAfter_start (s : TetrisGameSession) (draws : Draws) (now₀ now₁ : Int)
    (hstate : s.state ≠ .waitingForPlayers) :
    stretchesAfter (start s draws now₀ now₁) + 1 ≤ stretchesFromState s.state := by
  unfold start
  cases hs : s.state with
  | waitingForPlayers => exact absurd hs hstate
  | difficultySelection =>
      simp only [handleDifficultySelection, difficultyLoop]
      split <;>
        simp [stretchesAfter, forwardClientBytes, forAllClients, stretchesFromState,
          stretchesFromFrame]
  | _ => exact le_rfl

theorem stretchesAfter_resume {s : TetrisGameSession} {frame : Frame} (h : FrameScore s frame)
    (now : Int) : stretchesAfter (resume s now frame) + 1 ≤ stretchesFromFrame frame := by
  cases frame with
  | difficultyForward t d₁ d₂ =>
      simp only [resume, difficultyLoop]
      split <;> simp [stretchesAfter, forwardClientBytes, forAllClients, stretchesFromFrame]
  | playingForward s₁ s₂ roundOver =>
      cases roundOver <;>
        simp [stretchesAfter, resume, finishRound, forwardClientBytes, stretchesFromFrame]
  | roundOverSleep =>
      simp only [resume, restart]
      split <;> exact le_rfl
  | roundOverRestart nextState =>
      rcases h.2 with ⟨rfl, _⟩ | ⟨rfl, _⟩ <;>
        simp [stretchesAfter, resume, setState, stretchesFromState, stretchesFromFrame]
  | _ => simp [stretchesAfter, resume, setState, forAllClients, forwardClientBytes,
      stretchesFromState, stretchesFromFrame]

/-- The steps an activity may still take, when it is not answered. -/
def stepsLeft (a : Activity) : Nat :=
  match a.call with
  | .delaying _ => 4
  | .exchanging _ e => 1 + (if e.sentByte then 0 else 1) + (if e.timeout = .armed then 1 else 0)

/-- How many close events are still to come. -/
def closesLeft (w : World) : Nat := w.joined.countP fun c => decide ((w.client c).socket ≠ .closed)

/-- A stretch of handler code begins two exchanges at most. -/
def rank (w : World) : Nat :=
  9 * stretchesLeft w.session.state w.handler + (w.running.map stepsLeft).sum + closesLeft w

section Rank

variable {client client' : ClientId → GameBoyClient} {a : Activity} {c : ClientId}
  {pre post : List Activity}

theorem stepsLeft_le (a : Activity) : stepsLeft a ≤ 4 := by
  unfold stepsLeft
  split
  · exact le_rfl
  · split <;> split <;> omega

theorem sum_middle (pre post : List Activity) (a : Activity) :
    ((pre ++ a :: post).map stepsLeft).sum = stepsLeft a + ((pre ++ post).map stepsLeft).sum := by
  simp only [List.map_append, List.map_cons, List.sum_append, List.sum_cons]
  omega

theorem length_le_flatMap_owners (as : List Activity) :
    as.length ≤ (as.flatMap Activity.owners).length := by
  induction as with
  | nil => exact le_rfl
  | cons a as ih =>
      have hpos := List.length_pos_of_mem (client_mem_owners a)
      rw [List.flatMap_cons, List.length_append, List.length_cons]
      omega

/-- At most one activity serves each client. -/
theorem length_running_le (h : Reachable (Fires step) init w) : w.running.length ≤ 2 := by
  have hsynced := synced_reachable h
  have hrounds : Library.Rounds.Inv (group w) :=
    Library.Rounds.inv_steps Library.Rounds.inv_init (steps_reachable h)
  have hsubset : w.working ⊆ w.joined := fun c hc => hrounds.working_joined c hc
  calc w.running.length
      ≤ w.working.length := length_le_flatMap_owners w.running
    _ ≤ w.joined.length := (List.Nodup.subperm hsynced.nodup hsubset).length_le
    _ ≤ 2 := hsynced.joined_le

theorem sum_stepsLeft_le (h : Reachable (Fires step) init w) :
    (w.running.map stepsLeft).sum ≤ 8 := by
  have hlength := length_running_le h
  have hstep : ∀ n ∈ w.running.map stepsLeft, n ≤ 4 := by
    rw [List.forall_mem_map]
    exact fun a _ => stepsLeft_le a
  calc (w.running.map stepsLeft).sum
      ≤ (w.running.map stepsLeft).length • 4 := List.sum_le_card_nsmul _ _ hstep
    _ = w.running.length * 4 := by rw [List.length_map, Nat.nsmul_eq_mul]
    _ ≤ 8 := by omega

theorem closesLeft_destroyed (hjoined : w'.joined = w.joined)
    (hclient : Destroyed w.client w'.client) : closesLeft w' = closesLeft w := by
  rw [closesLeft, closesLeft, hjoined]
  apply List.countP_congr
  intro c _
  simp [hclient.closed c]

theorem closesLeft_closes (h : Closes w c w') : closesLeft w' + 1 ≤ closesLeft w := by
  obtain ⟨pre, post, hsplit⟩ := List.append_of_mem h.mem
  have hkept (d : ClientId) (hd : (w'.client d).socket ≠ .closed) :
      (w.client d).socket ≠ .closed := by
    rw [ne_eq, h.client.closed d] at hd
    intro hclosed
    apply hd
    by_cases heq : d = c
    · rw [heq, setSocket, Function.update_self]
    · rwa [setSocket, Function.update_of_ne heq]
  have hclosed : (w'.client c).socket = .closed := by
    rw [h.client.closed c, setSocket, Function.update_self]
  have hmono (cs : List ClientId) :
      cs.countP (fun d => decide ((w'.client d).socket ≠ .closed)) ≤
        cs.countP (fun d => decide ((w.client d).socket ≠ .closed)) := by
    apply List.countP_mono_left
    intro d _ hd
    simpa using hkept d (by simpa using hd)
  have hpre := hmono pre
  have hpost := hmono post
  rw [closesLeft, closesLeft, h.joined, hsplit, List.countP_append, List.countP_append,
    List.countP_cons_of_neg (by simp [hclosed]), List.countP_cons_of_pos (by simp [h.opened])]
  omega

/-! ### Each step lowers the rank -/

theorem rank_exchanges (hsilent : Silent w l) (h : Exchanges w l w') : rank w' + 1 ≤ rank w := by
  cases h with
  | @write i accepted pre post a b phase hsplit hcall _ =>
      have hbefore : stepsLeft a = 4 := by simp [stepsLeft, hcall]
      have hafter : stepsLeft { a with call := .exchanging accepted .start } = 3 := rfl
      simp only [rank, closesLeft, hsplit, sum_middle, hbefore, hafter]
      omega
  | @written i pre post a e hsplit hcall hsent =>
      have hsteps : stepsLeft { a with call := .exchanging true (e.onWrite false) } + 1 =
          stepsLeft a := by
        simp [stepsLeft, hcall, Exchange.onWrite, hsent]
        omega
      simp only [rank, closesLeft, hsplit, sum_middle]
      omega
  | @writeError i pre post a accepted e hsplit hcall =>
      have hbefore : 1 ≤ stepsLeft a := by
        simp only [stepsLeft, hcall]
        omega
      have hcloses : closesLeft (World.onRejected { w with
          running := pre ++ post, client := disconnectAll w.client [a.client] } a) =
          closesLeft w :=
        closesLeft_destroyed rfl (destroyed_disconnectAll w.client [a.client])
      have hhandler := stretchesLeft_reject w.session.state w.handler a.step
      rw [rank, rank, hcloses]
      simp only [hsplit, sum_middle, World.onRejected]
      omega
  | @timeout i pre post a accepted e hsplit hcall hget =>
      have harmed : e.timeout = .armed := by simpa [Silent, exchangingAt, hget, hcall] using hsilent
      have hsteps : stepsLeft { a with
          call := .exchanging accepted (onTimeout (w.client a.client) e).2 } + 1 = stepsLeft a := by
        simp [stepsLeft, hcall, onTimeout, harmed]
      have hcloses : closesLeft { w with
          client := Function.update w.client a.client (onTimeout (w.client a.client) e).1
          running := pre ++ { a with
            call := .exchanging accepted (onTimeout (w.client a.client) e).2 } :: post } =
          closesLeft w :=
        closesLeft_destroyed rfl (destroyed_timeout w a.client e)
      rw [rank, rank, hcloses]
      simp only [hsplit, sum_middle]
      omega

/-- A close event takes the exchange of its client with it. -/
theorem rank_closes (h : Closes w c w') (hstate : w'.session.state = w.session.state) :
    rank w' + 1 ≤ rank w := by
  have hcloses := closesLeft_closes h
  have hhandler : stretchesLeft w'.session.state w'.handler ≤
      stretchesLeft w.session.state w.handler := by
    rw [hstate]
    rcases h.handler with hsame | ⟨n, hreject⟩
    · rw [hsame]
    · rw [hreject]
      exact stretchesLeft_reject _ _ n
  have hsum : (w'.running.map stepsLeft).sum ≤ (w.running.map stepsLeft).sum := by
    rw [h.running]
    exact (List.filter_sublist.map stepsLeft).sum_le_sum fun _ _ => Nat.zero_le _
  rw [rank, rank]
  omega

/-- So does a stretch of handler code, whatever it begins. -/
theorem rank_perform {r : Resumption} (h : Reachable (Fires step) init (w.perform r))
    (hbase : r.session.toGameSession = w.session.toGameSession)
    (hafter : stretchesAfter r + 1 ≤ stretchesLeft w.session.state w.handler) :
    rank (w.perform r) + 1 ≤ rank w := by
  have hleft := stretchesLeft_perform w r
  have hsum := sum_stepsLeft_le h
  have hcloses := closesLeft_destroyed (effect_perform hbase).joined (destroyed_perform w r)
  rw [rank, rank, hcloses]
  omega

theorem rank_catchError (h : 1 ≤ stretchesLeft w.session.state w.handler) :
    rank w.catchError + 1 ≤ rank w := by
  have hcloses : closesLeft w.catchError = closesLeft w :=
    closesLeft_destroyed (joined_endSession w) (destroyed_endSession w)
  have hrunning : w.catchError.running = w.running := running_endSession w
  have hleft : stretchesLeft w.catchError.session.state w.catchError.handler = 0 := rfl
  rw [rank, rank, hcloses, hrunning, hleft]
  omega

end Rank

theorem state_step (h : Reachable (Fires step) init w)
    (hstate : w.session.state ≠ .waitingForPlayers) (hstep : step w l = some w') :
    w'.session.state ≠ .waitingForPlayers := by
  rcases step_cases (synced_reachable h).toExclusive hstep with
    ⟨draws, now₀, now₁, _, _, rfl⟩ | ⟨frame, b, now, hhandler, _, _, rfl⟩ | hpath
  · have hperformed := performed
      { w with past := w.log, phase := [.handlerStarted w.session.state] }
      (start w.session draws now₀ now₁)
    rcases start_state w.session draws now₀ now₁ with hsame | ⟨hwaiting, _⟩
    · rwa [World.handleState, hperformed.state, hsame]
    · exact absurd hwaiting hstate
  · rw [(performed w (resume w.session now frame)).state]
    exact resume_started ((scoreInv_reachable h).frame frame b hhandler) now
  · rwa [(path_state hpath).1]

theorem rank_step (h : Reachable (Fires step) init w)
    (hstate : w.session.state ≠ .waitingForPlayers) (hsilent : Silent w l)
    (hstep : step w l = some w') : rank w' + 1 ≤ rank w := by
  have hsynced := synced_reachable h
  have hreach : Reachable (Fires step) init w' := h.trans (.single hstep)
  cases l with
  | join c =>
      -- both clients have joined, or `end` has removed them
      simp only [step, Option.ite_none_right_eq_some] at hstep
      obtain ⟨hlive, hroom⟩ := (GameSession.isJoinable_iff _).mp hstep.1.1
      have hfull := hsynced.assembled.resolve_right fun hwaiting => hstate hwaiting.1
      rw [hsynced.members, hsynced.required] at hroom
      simp only [hlive, Bool.false_eq_true, if_false] at hroom
      omega
  | tick draws now₀ now₁ =>
      obtain ⟨hhandler, rfl⟩ := step_tick hstep
      have hleft : stretchesLeft w.session.state w.handler =
          stretchesFromState w.session.state := by rw [hhandler, stretchesLeft]
      refine rank_perform
        (w := { w with past := w.log, phase := [.handlerStarted w.session.state] })
        hreach (start_toGameSession _ _ _ _) ?_
      rw [hleft]
      exact stretchesAfter_start w.session draws now₀ now₁ hstate
  | resume now =>
      simp only [step] at hstep
      split at hstep
      case h_2 => cases hstep
      case h_1 frame b hhandler =>
          simp only [Option.ite_none_right_eq_some, Option.some.injEq] at hstep
          obtain ⟨hgoesOn, rfl⟩ := hstep
          refine rank_perform hreach (resume_toGameSession _ _ _) ?_
          rw [hhandler, stretchesLeft, if_pos hgoesOn]
          exact stretchesAfter_resume ((scoreInv_reachable h).frame frame b hhandler) now
  | reject =>
      simp only [step] at hstep
      split at hstep
      case h_2 => cases hstep
      case h_1 frame b hhandler =>
          simp only [Option.ite_none_right_eq_some, Option.some.injEq] at hstep
          obtain ⟨hrejected, rfl⟩ := hstep
          apply rank_catchError
          rw [hhandler, stretchesLeft, if_neg (by simp [hrejected])]
  | data c rx now => exact absurd hsilent id
  | close c =>
      exact rank_closes (closes_of_step hsynced.toExclusive hstep)
        (path_state (path_close hsynced.toExclusive hstep)).1
  | write i accepted | written i | writeError i | timeout i =>
      exact rank_exchanges hsilent (exchanges_of_step hstep rfl)

theorem rank_le (h : Reachable (Fires step) init w) : rank w ≤ 127 := by
  have hleft := stretchesLeft_le w.session.state w.handler
  have hsum := sum_stepsLeft_le h
  have hcloses : closesLeft w ≤ 2 :=
    calc closesLeft w
        ≤ w.joined.length := List.countP_le_length
      _ ≤ 2 := (synced_reachable h).joined_le
  calc rank w
      = 9 * stretchesLeft w.session.state w.handler + (w.running.map stepsLeft).sum +
          closesLeft w := rfl
    _ ≤ 9 * 13 + 8 + 2 := by omega
    _ = 127 := rfl

/-! ## The session ends -/

/-- Once the players of a session are there and send nothing any more, in every order of what
comes there are at most 127 steps, and until the session is over there is something to come. -/
theorem silent_session_ends (h : Reachable (Fires step) init w)
    (hstate : w.session.state ≠ .waitingForPlayers) {ls : List Label}
    (hrun : Run (FiresWhen Silent step) w ls w') :
    ls.length ≤ 127 ∧ (Over w' ∨ ∃ l w'', Due w' l ∧ FiresWhen Silent step w' l w'') := by
  have hfires : Run (Fires step) w ls w' := hrun.mono fun _ _ _ hfire => hfire.2
  have hreach : Reachable (Fires step) init w' := h.trans ⟨ls, hfires⟩
  have hcount : ls.countP (fun _ => true) + rank w' ≤ rank w := by
    refine hrun.countP_add_le
      (I := fun t => Reachable (Fires step) init t ∧ t.session.state ≠ .waitingForPlayers)
      ⟨h, hstate⟩ ?_
    rintro t l u ⟨ht, hstarted⟩ ⟨hsilent, hstep⟩
    exact ⟨⟨ht.trans (.single hstep), state_step ht hstarted hstep⟩,
      rank_step ht hstarted hsilent hstep⟩
  have hrank := rank_le h
  constructor
  · rw [List.countP_true] at hcount
    omega
  · by_cases hover : Over w'
    · exact .inl hover
    · obtain ⟨l, hdue, hsome⟩ := due_of_not_over hreach hover
      obtain ⟨w'', hstep⟩ := Option.isSome_iff_exists.mp hsome
      exact .inr ⟨l, w'', hdue, silent_of_due hdue, hstep⟩

/-- The first timer fires, and what follows from that. -/
def silence : List Label :=
  [.tick draws₀ 0 0, .write 0 true, .write 1 true, .timeout 0, .close 7, .reject, .close 8]

/-- Two players join and never answer. -/
theorem silent_session_ends_connected :
    ∃ w ls w', w.session.state = .playersConnected ∧ Run (FiresWhen Silent step) w ls w' ∧
      Over w' ∧ ls.length ≤ 127 := by
  have hruns : (exec step init [.join 7, .join 8, .tick draws₀ 0 0]).any (fun w =>
      w.session.state = .playersConnected ∧
        (exec (guarded Silent step) w silence).any (fun w' => Over w') = true) = true := by
    decide +kernel
  obtain ⟨w, hreach, hw⟩ := exists_reachable_of_exec hruns
  rw [decide_eq_true_iff] at hw
  obtain ⟨hstate, hexec⟩ := hw
  obtain ⟨w', hguarded, hover⟩ := exists_run_of_exec hexec
  have hrun : Run (FiresWhen Silent step) w silence w' :=
    hguarded.mono fun _ _ _ => guarded_fires
  have hends := silent_session_ends hreach (by simp [hstate]) hrun
  exact ⟨w, silence, w', hstate, hrun, of_decide_eq_true hover, hends.1⟩

end GbPlay.Server.Tetris.Silence
