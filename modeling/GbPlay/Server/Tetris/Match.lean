import GbPlay.Library.Exchanges
import GbPlay.Link.Connection
import GbPlay.Server.Tetris.Wire

/-!
# A session and its Game Boys

A Tetris session together with what its clients are: for each one the bytes on the
way, a dongle and a Game Boy, which is an arbitrary state machine.  All of them take
their steps in any order.  As in the link of one client, the callback of a write
runs before the answer to that write arrives.
-/

namespace GbPlay.Server.Tetris.Match

open GbPlay.Library.Exchanges GbPlay.Library.Runs GbPlay.Library.Sessions GbPlay.Link
open GbPlay.Server.Client GbPlay.Server.Transcripts GbPlay.Server.Tetris.Data
open GbPlay.Server.Tetris.Handlers GbPlay.Server.Tetris.Model GbPlay.Server.Tetris.Sync
open GbPlay.Server.Tetris.Initialization GbPlay.Server.Tetris.Wire

structure State (γ : Type*) where
  world : World
  connections : ClientId → Connection γ

inductive Label
  /-- A step of the session in which no data arrives. -/
  | session (l : Model.Label)
  /-- A data event of client `c` with the next `n` bytes of its connection. -/
  | data (c : ClientId) (n : Nat) (now : Int)
  | connection (c : ClientId) (l : ConnectionLabel)

variable {γ : Type*}

def init (g₀ : ClientId → γ) : State γ :=
  { world := Model.init, connections := fun c => { gameBoy := g₀ c } }

def step (device : ClientId → γ → Byte → γ × Byte) (s : State γ) : Label → Option (State γ)
  | .session (.data _ _ _) => none
  | .session (.write i true) =>
      match handsOver s.world i with
      | some (c, b) =>
          (Model.step s.world (.write i true)).map fun world =>
            { world
              connections := Function.update s.connections c
                ((connection (device c)).ask (s.connections c) b) }
      | none => none
  | .session l => (Model.step s.world l).map fun world => { s with world }
  | .data c n now =>
      match (s.connections c).up.take n with
      | [] => none
      | rx :: _ =>
          if callbacksRan s.world c then
            (Model.step s.world (.data c rx now)).map fun world =>
              { world
                connections := Function.update s.connections c
                  { s.connections c with up := (s.connections c).up.drop n } }
          else none
  | .connection c l =>
      (connectionStep (device c) (s.connections c) l).map fun connection =>
        { s with connections := Function.update s.connections c connection }

/-! ## The invariant -/

/-- Where the exchanges with client `c` stand. -/
structure Linked (device : ClientId → γ → Byte → γ × Byte) (g₀ : ClientId → γ) (s : State γ)
    (c : ClientId) (due : Bool) : Prop where
  exchanging : Exchanging (device c) ConnectionPhase (g₀ c) (s.connections c)
    (sentTo c s.world.log) (answeredBy c s.world.log) due
  connected : (s.world.client c).socket = .connected →
    (due = true ↔ Awaited s.world.running c)
  given : due = true → Awaited s.world.running c ∨ ∃ m, .failed m c ∈ s.world.log

structure Inv (device : ClientId → γ → Byte → γ × Byte) (g₀ : ClientId → γ) (s : State γ) :
    Prop where
  world : Reachable (Fires Model.step) Model.init s.world
  linked : ∀ c, ∃ due, Linked device g₀ s c due

variable {device : ClientId → γ → Byte → γ × Byte} {g₀ : ClientId → γ} {s s' : State γ}
  {world : World} {c d : ClientId} {due : Bool}

theorem inv_init : Inv device g₀ (init g₀) where
  world := .refl _
  linked c := ⟨false, {
    exchanging := .start (.idle rfl rfl (.inl rfl))
    connected := fun _ => by simp [init, Model.init, Awaited]
    given := by simp }⟩

theorem reachable_step {l : Model.Label} (h : Reachable (Fires Model.step) Model.init s.world)
    (hstep : Model.step s.world l = some world) :
    Reachable (Fires Model.step) Model.init world := by
  obtain ⟨ls, hrun⟩ := h
  exact ⟨ls ++ [l], .snoc hrun hstep⟩

/-- A client that no byte of the step is for. -/
theorem Linked.aside (h : Linked device g₀ s c due) (haside : Aside s.world world)
    (hconnection : s'.connections c = s.connections c) (hworld : s'.world = world) :
    Linked device g₀ s' c due := by
  subst hworld
  constructor
  · rw [haside.sentTo, haside.answeredBy, hconnection]
    exact h.exchanging
  · intro hconnected
    have hbefore := (haside.client c).2 hconnected
    rw [h.connected hbefore, haside.awaited c hconnected]
  · intro hdue
    obtain ⟨events, hlog, _⟩ := haside.log
    rcases h.given hdue with hawaited | ⟨m, hm⟩
    · exact haside.given c hawaited
    · refine .inr ⟨m, ?_⟩
      rw [hlog]
      exact List.mem_append_left _ hm

/-- A byte passes between the session and another client. -/
theorem Linked.other (h : Linked device g₀ s c due)
    (hsent : sentTo c s'.world.log = sentTo c s.world.log)
    (hanswered : answeredBy c s'.world.log = answeredBy c s.world.log)
    (hlog : ∀ e ∈ s.world.log, e ∈ s'.world.log)
    (hsocket : (s'.world.client c).socket = (s.world.client c).socket)
    (hawaited : Awaited s'.world.running c ↔ Awaited s.world.running c)
    (hconnection : s'.connections c = s.connections c) : Linked device g₀ s' c due := by
  constructor
  · rw [hsent, hanswered, hconnection]
    exact h.exchanging
  · rw [hsocket, hawaited]
    exact h.connected
  · rw [hawaited]
    intro hdue
    rcases h.given hdue with hbefore | ⟨m, hm⟩
    · exact .inl hbefore
    · exact .inr ⟨m, hlog _ hm⟩

theorem sentTo_sent (n : Nat) (b : Byte) (log : List Event) :
    sentTo d (log ++ [.sent n c b]) = sentTo d log ++ if c = d then [b] else [] := by
  rw [sentTo_append]
  congr 1
  by_cases h : c = d
  · simp [sentTo, sentToByte, h]
  · simp [sentTo, sentToByte, h]

theorem answeredBy_sent (n : Nat) (b : Byte) (log : List Event) :
    answeredBy d (log ++ [.sent n c b]) = answeredBy d log := by
  simp [answeredBy, answeredByByte]

theorem sentTo_answered (n : Nat) (rx : Byte) (log events : List Event)
    (hevents : ∀ e ∈ events, passes e = false) :
    sentTo d (log ++ .answered n c rx :: events) = sentTo d log := by
  have hsplit : log ++ .answered n c rx :: events = log ++ [.answered n c rx] ++ events := by
    simp
  rw [hsplit, sentTo_append, sentTo_append, sentTo_of_not_passes hevents]
  simp [sentTo, sentToByte]

theorem answeredBy_answered (n : Nat) (rx : Byte) (log events : List Event)
    (hevents : ∀ e ∈ events, passes e = false) :
    answeredBy d (log ++ .answered n c rx :: events) =
      answeredBy d log ++ if c = d then [rx] else [] := by
  have hsplit : log ++ .answered n c rx :: events = log ++ [.answered n c rx] ++ events := by
    simp
  rw [hsplit, answeredBy_append, answeredBy_append, answeredBy_of_not_passes hevents,
    List.append_nil]
  congr 1
  by_cases h : c = d
  · simp [answeredBy, answeredByByte, h]
  · simp [answeredBy, answeredByByte, h]

theorem Inv.handOver (h : Inv device g₀ s) {b : Byte}
    (hover : HandedOver s.world c b world)
    (hworld : Reachable (Fires Model.step) Model.init world) :
    Inv device g₀ {
      world
      connections := Function.update s.connections c
        ((connection (device c)).ask (s.connections c) b) } := by
  refine ⟨hworld, fun d => ?_⟩
  obtain ⟨n, hlog⟩ := hover.log
  obtain ⟨due, hd⟩ := h.linked d
  have hanswered : answeredBy d world.log = answeredBy d s.world.log := by
    rw [hlog, answeredBy_sent]
  by_cases hcd : c = d
  · subst hcd
    have hdue : due = false := by
      rw [← Bool.not_eq_true, hd.connected hover.connected]
      exact hover.idle
    refine ⟨true, ⟨?_, ?_, ?_⟩⟩
    · simp only [hlog, answeredBy_sent, sentTo_sent, if_true, Function.update_self]
      exact (hdue ▸ hd.exchanging).send (serves_connection (device c)) b
    · intro _
      simp [hover.awaited]
    · intro _
      exact .inl ((hover.awaited c).mpr (.inl rfl))
  · refine ⟨due, hd.other ?_ hanswered ?_ ?_ ?_ ?_⟩
    · rw [hlog, sentTo_sent, if_neg hcd, List.append_nil]
    · intro e he
      rw [hlog]
      exact List.mem_append_left _ he
    · rw [hover.client]
    · rw [hover.awaited, or_iff_right (Ne.symm hcd)]
    · exact Function.update_of_ne (Ne.symm hcd) _ _

theorem Inv.receive (h : Inv device g₀ s) {rx : Byte} {now : Int} {n : Nat} {rest : List Byte}
    (hup : (s.connections c).up.take n = rx :: rest) (hran : callbacksRan s.world c = true)
    (hstep : Model.step s.world (.data c rx now) = some world) :
    Inv device g₀ {
      world
      connections := Function.update s.connections c
        { s.connections c with up := (s.connections c).up.drop n } } := by
  have hsynced := synced_reachable h.world
  have hconnected : (s.world.client c).socket = .connected := by
    simp only [Model.step, Option.ite_none_right_eq_some] at hstep
    exact hstep.1.1
  obtain ⟨due, hc⟩ := h.linked c
  obtain ⟨p, hphase⟩ := hc.exchanging.phase
  have hone := connectionPhase_length hphase
  obtain ⟨up, hbytes⟩ : ∃ up, (s.connections c).up = rx :: up := by
    cases hqueue : (s.connections c).up with
    | nil => simp [hqueue] at hup
    | cons b up =>
        cases n with
        | zero => simp at hup
        | succ n =>
            rw [hqueue, List.take_succ_cons, List.cons.injEq] at hup
            exact ⟨up, by rw [hup.1]⟩
  have hdrop : (s.connections c).up.drop n = up := by
    have hnil : up = [] := by
      rw [hbytes, List.length_cons] at hone
      exact List.eq_nil_of_length_eq_zero (by omega)
    subst hnil
    cases n with
    | zero => simp at hup
    | succ n => simp [hbytes]
  have hanswer : (connection (device c)).answer (s.connections c) =
      some (rx, { s.connections c with up }) := by
    simp [connection, hbytes]
  obtain ⟨hdue, hexchanging⟩ := hc.exchanging.receive (serves_connection (device c)) hanswer
  have hreceived := received_of_step hsynced hstep hran ((hc.connected hconnected).mp hdue)
  obtain ⟨m, events, hlog, hevents⟩ := hreceived.log
  refine ⟨reachable_step h.world hstep, fun d => ?_⟩
  have hsent (d : ClientId) : sentTo d world.log = sentTo d s.world.log := by
    rw [hlog, sentTo_answered _ _ _ _ hevents]
  by_cases hcd : c = d
  · subst hcd
    refine ⟨false, ⟨?_, ?_, by simp⟩⟩
    · simp only [hlog, sentTo_answered _ _ _ _ hevents, answeredBy_answered _ _ _ _ hevents,
        if_true, Function.update_self, hdrop]
      exact hexchanging
    · intro _
      simp [hreceived.awaited]
  · obtain ⟨due, hd⟩ := h.linked d
    refine ⟨due, hd.other (hsent d) ?_ ?_ ?_ ?_ ?_⟩
    · rw [hlog, answeredBy_answered _ _ _ _ hevents, if_neg hcd, List.append_nil]
    · intro e he
      rw [hlog]
      exact List.mem_append_left _ he
    · rw [hreceived.client, Moves.received, Function.update_of_ne (Ne.symm hcd)]
    · rw [hreceived.awaited, and_iff_right (Ne.symm hcd)]
    · exact Function.update_of_ne (Ne.symm hcd) _ _

theorem Inv.aside (h : Inv device g₀ s) {l : Model.Label}
    (hstep : Model.step s.world l = some world) (hwrite : ∀ i, l ≠ .write i true)
    (hdata : ∀ c rx now, l ≠ .data c rx now) : Inv device g₀ { s with world } := by
  have haside := aside_of_step (synced_reachable h.world) hstep hwrite hdata
  refine ⟨reachable_step h.world hstep, fun c => ?_⟩
  obtain ⟨due, hc⟩ := h.linked c
  exact ⟨due, hc.aside haside rfl rfl⟩

theorem Inv.step (h : Inv device g₀ s) {l : Label} (hstep : step device s l = some s') :
    Inv device g₀ s' := by
  cases l with
  | session l =>
      by_cases hwrite : ∃ i, l = .write i true
      · obtain ⟨i, rfl⟩ := hwrite
        simp only [Match.step] at hstep
        split at hstep
        case h_2 => cases hstep
        case h_1 c b hover =>
            obtain ⟨world, hworld, rfl⟩ := Option.map_eq_some_iff.mp hstep
            exact h.handOver (handedOver_of_step (synced_reachable h.world) hworld hover)
              (reachable_step h.world hworld)
      · by_cases hdata : ∃ c rx now, l = .data c rx now
        · obtain ⟨c, rx, now, rfl⟩ := hdata
          cases hstep
        · have hmap : (Model.step s.world l).map (fun world => { s with world }) = some s' := by
            rw [← hstep]
            cases l with
            | write i accepted =>
                cases accepted with
                | true => exact absurd ⟨i, rfl⟩ hwrite
                | false => rfl
            | data c rx now => exact absurd ⟨c, rx, now, rfl⟩ hdata
            | _ => rfl
          obtain ⟨world, hworld, rfl⟩ := Option.map_eq_some_iff.mp hmap
          exact h.aside hworld (fun i hi => hwrite ⟨i, hi⟩)
            (fun c rx now hd => hdata ⟨c, rx, now, hd⟩)
  | data c n now =>
      simp only [Match.step] at hstep
      split at hstep
      case h_1 => cases hstep
      case h_2 rx rest hup =>
          rw [Option.ite_none_right_eq_some] at hstep
          obtain ⟨hran, hstep⟩ := hstep
          obtain ⟨world, hworld, rfl⟩ := Option.map_eq_some_iff.mp hstep
          exact h.receive hup hran hworld
  | connection c l =>
      obtain ⟨connection, hconnection, rfl⟩ := Option.map_eq_some_iff.mp hstep
      refine ⟨h.world, fun d => ?_⟩
      obtain ⟨due, hd⟩ := h.linked d
      refine ⟨due, ⟨?_, hd.connected, hd.given⟩⟩
      by_cases hdc : d = c
      · subst hdc
        simp only [Function.update_self]
        exact hd.exchanging.step (serves_connection (device d)) hconnection
      · simp only [Function.update_of_ne hdc]
        exact hd.exchanging

theorem inv_reachable (h : Reachable (Fires (step device)) (init g₀) s) : Inv device g₀ s :=
  h.invariant (I := Inv device g₀) inv_init fun _ _ _ ht hstep => ht.step hstep

/-! ## The Game Boys -/

/-- In every run of the session, the connections, the dongles and the Game Boys, and however
they fail: what a client has answered is what its Game Boy answers to the bytes that have been
sent to it, and at most the last answer is missing; the Game Boy has been clocked in those
bytes, and at most the last one is missing; and at most one byte is on the way. -/
theorem game_boys_answer (h : Reachable (Fires (step device)) (init g₀) s) (c : ClientId) :
    answeredBy c s.world.log <+: answers (device c) (g₀ c) (sentTo c s.world.log) ∧
      (sentTo c s.world.log).length ≤ (answeredBy c s.world.log).length + 1 ∧
      (∃ done, (s.connections c).gameBoy = after (device c) (g₀ c) done ∧
        done <+: sentTo c s.world.log ∧ (answeredBy c s.world.log).length ≤ done.length) ∧
      (s.connections c).down.length + (s.connections c).up.length ≤ 1 := by
  obtain ⟨due, hc⟩ := (inv_reachable h).linked c
  obtain ⟨hanswered, hlength, hdone⟩ := hc.exchanging.genuine connectionPhase_state
  obtain ⟨p, hphase⟩ := hc.exchanging.phase
  have hdue : due.toNat ≤ 1 := Bool.toNat_le due
  exact ⟨hanswered, by omega, hdone, connectionPhase_length hphase⟩

/-- A game that stores its next answer: that it is ready for the music after `MASTER`, and that
it is a slave after any other byte. -/
def storedGame (g rx : Byte) : Byte × Byte :=
  (if rx = TetrisCtrlByte.master then TetrisCtrlByte.readyForMusic else TetrisCtrlByte.slave, g)

/-- One exchange of the activity at index `i`, with client `c`. -/
def exchange (i : Nat) (c : ClientId) : List Label :=
  [.session (.write i true), .session (.written i), .connection c .recv, .connection c .spi,
    .connection c .send, .data c 1 0]

/-- Two clients choose the music. -/
def chooseMusic : List Label :=
  [.session (.join 7), .session (.join 8), .session (.tick draws₀ 0 0),
    .session (.tick draws₀ 0 0)] ++ exchange 0 7 ++ exchange 0 8 ++ exchange 0 7 ++
    exchange 0 8 ++ exchange 0 7

/-- The first client has been told what has been chosen, and the second one has not. -/
theorem game_boys_answer_music :
    ∃ s : State Byte, sentTo 7 s.world.log = [0x29, 0x1C, 0x50] ∧
      answeredBy 8 s.world.log = [0x55, 0x39] ∧
      answeredBy 8 s.world.log <+: answers storedGame 0x55 (sentTo 8 s.world.log) := by
  have hrun : (exec (step fun _ => storedGame) (init fun _ => 0x55) chooseMusic).any
      (fun s => decide (sentTo 7 s.world.log = [0x29, 0x1C, 0x50] ∧
        answeredBy 8 s.world.log = [0x55, 0x39])) = true := by
    decide +kernel
  obtain ⟨s, hs, hp⟩ := exists_reachable_of_exec hrun
  rw [decide_eq_true_iff] at hp
  exact ⟨s, hp.1, hp.2, (game_boys_answer hs 8).1⟩

/-- With what client `c` is sent during `SendingInitializationData`. -/
def initialData (G P : List Byte) (a b : ClientId → Nat) (c : ClientId) : List Byte :=
  dataStream TetrisCtrlByte.master G P (a c) (b c) ++ startSequence

/-- The Game Boys are clocked in the same garbage `G` and the same pieces `P`. -/
structure SameData (device : ClientId → γ → Byte → γ × Byte) (g₀ : ClientId → γ) (s : State γ)
    (G P : List Byte) (a b : ClientId → Nat) : Prop where
  garbage : G.length = 100
  pieces : P.length = 256
  generated : .generated G P ∈ s.world.phase
  polled : ∀ c, 1 ≤ a c ∧ 1 ≤ b c
  clocked : ∀ c, ∃ done, (s.connections c).gameBoy = after (device c) (g₀ c) done ∧
    done <+: sentTo c s.world.past ++ initialData G P a b c
  complete : s.world.session.state = .playing → s.world.session.ended = false →
    ∀ c ∈ s.world.joined, (s.connections c).gameBoy =
      after (device c) (g₀ c) (sentTo c s.world.past ++ initialData G P a b c)

/-- Nothing is due where the next handler is about to be called. -/
theorem Linked.not_due (h : Linked device g₀ s c due)
    (hreachable : Reachable (Fires Model.step) Model.init s.world)
    (hhandler : s.world.handler = .scheduled) : due = false := by
  have hrounds : Library.Rounds.Inv (group s.world) :=
    Library.Rounds.inv_steps Library.Rounds.inv_init (steps_reachable hreachable)
  rw [← Bool.not_eq_true]
  intro hdue
  rcases h.given hdue with ⟨a, ha, _⟩ | ⟨m, hm⟩
  · have hworking := (synced_reachable hreachable).awaits
    rw [hhandler] at hworking
    rw [running_eq_nil hworking] at ha
    cases ha
  · have hfailed : .failed m c ∈ (group s.world).log := List.mem_filterMap.mpr ⟨_, hm, rfl⟩
    have hgroup := (hrounds.failed m c hfailed).1
    simp [group, hhandler, failed] at hgroup

/-- Whatever the Game Boys answer and however the steps are ordered, they are clocked in the
same garbage and the same pieces, each after polls of its own; and where the round starts, all
of both. -/
theorem same_data (h : Reachable (Fires (step device)) (init g₀) s)
    (hhead : s.world.phase.head? = some (.handlerStarted .sendingInitializationData)) :
    ∃ G P a b, SameData device g₀ s G P a b := by
  have hinv := inv_reachable h
  have hstaged := staged_reachable hinv.world
  have htracked := Callbacks.tracked_reachable hinv.world
  obtain ⟨G, P, n, cs, events, second, hi⟩ := hstaged.staged hhead
  choose a b hfirst using fun c => hi.first_transcript htracked c
  have hlog (c : ClientId) : sentTo c s.world.log =
      sentTo c s.world.past ++ sentTo c s.world.phase := by
    rw [World.log, sentTo_append]
  refine ⟨G, P, a, b, ?_⟩
  constructor
  case garbage => exact hi.garbage
  case pieces => exact hi.pieces
  case generated => simp [hi.phase, opening]
  case polled => exact fun c => (hfirst c).one_le
  case clocked =>
      intro c
      obtain ⟨due, hc⟩ := hinv.linked c
      obtain ⟨_, _, done, hgameBoy, hdone, _⟩ := hc.exchanging.genuine connectionPhase_state
      refine ⟨done, hgameBoy, hdone.trans ?_⟩
      rw [hlog]
      exact (List.prefix_append_right_inj _).mpr
        (initStream hi hinv.world c (hfirst c)).stream
  case complete =>
      intro hplaying hlive c hc
      have hhandler : s.world.handler = .scheduled := by
        by_contra hbusy
        have hstate := (hstaged.head hbusy).symm.trans hhead
        simp [hplaying] at hstate
      obtain ⟨_, _, _, _, _, _, hi'⟩ := hstaged.playing hhandler hplaying
      obtain ⟨later, rfl⟩ : ∃ later, second = some later := by
        have hn := hi.step_unique hi'
        have hsteps := hi.steps.symm.trans hi'.steps
        cases second with
        | none => simp [hn] at hsteps
        | some later => exact ⟨later, rfl⟩
      obtain ⟨due, hlinked⟩ := hinv.linked c
      obtain rfl := hlinked.not_due hinv.world hhandler
      rw [hlinked.exchanging.state_of_settled connectionPhase_state, hlog,
        (streams_complete hi hinv.world hhandler hlive (hfirst c) hc).1]
      rfl

/-- The first Game Boy gets the first byte of the garbage while the second one has been polled. -/
theorem same_data_garbage :
    ∃ s : State Byte, sentTo 7 s.world.phase = [0x29, 0x2F] ∧ sentTo 8 s.world.phase = [0x29] ∧
      ∃ G P a b, SameData (fun _ => storedGame) (fun _ => 0x55) s G P a b := by
  have hrun : (exec (step fun _ => storedGame) (init fun _ => 0x55)
      (chooseMusic ++ exchange 0 8 ++ [.session (.resume 0), .session (.tick draws₀ 0 5000)] ++
        exchange 0 7 ++ exchange 0 8 ++ [.session (.resume 0), .session (.tick draws₀ 0 0)] ++
        exchange 0 7 ++ exchange 0 8 ++ exchange 0 7)).any
      (fun s => decide (sentTo 7 s.world.phase = [0x29, 0x2F] ∧
        sentTo 8 s.world.phase = [0x29] ∧
        s.world.phase.head? = some (.handlerStarted .sendingInitializationData))) = true := by
    decide +kernel
  obtain ⟨s, hs, hp⟩ := exists_reachable_of_exec hrun
  rw [decide_eq_true_iff] at hp
  exact ⟨s, hp.1, hp.2.1, same_data hs hp.2.2⟩

end GbPlay.Server.Tetris.Match
