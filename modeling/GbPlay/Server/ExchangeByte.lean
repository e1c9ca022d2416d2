import GbPlay.Server.Client
import Mathlib.Data.List.Induction

/-!
# One `exchangeByte` call, whatever happens to it

`run c₀ events` is a call of `exchangeByte` on the client `c₀` to which the
events happened in that order.  Any list of events is a run: a callback whose
listener, timer or promise is gone does nothing.

A call goes through few stages (`Stage`), and `Matches` says what the call's
closures, its listeners and its timer are in each of them.
-/

namespace GbPlay.Server.ExchangeByte

open GbPlay.Server.Client

inductive Event
  /-- `waitSendDelay` is over: the call starts its timer, adds its listeners and writes. -/
  | write
  | written
  | writeError
  /-- A chunk of data, which has at least one byte. -/
  | data (first : Byte) (rest : List Byte)
  | close
  | timeout
  deriving DecidableEq, Repr

/-- `call` is `none` in `waitSendDelay`. -/
structure State where
  client : GameBoyClient
  call : Option Exchange := none
  deriving DecidableEq, Repr

def State.outcome (s : State) : Option Outcome := s.call.bind Exchange.outcome

/-- What one event does to the client and to the call it finds. -/
def deliver (c : GameBoyClient) (e : Exchange) : Event → GameBoyClient × Exchange
  | .write => (c, e)
  | .written => (c, e.onWrite false)
  -- a stream that reports a write error has been destroyed
  | .writeError => (c.disconnect, e.onWrite true)
  | .data first _ => onData c e first
  | .close => ({ c with socket := .closed }, e.onClose)
  | .timeout => onTimeout c e

def step (s : State) (event : Event) : State :=
  match s.call with
  | some e =>
      let (c, e') := deliver s.client e event
      { client := c, call := some e' }
  | none =>
      match event with
      | .write => { s with call := some .start }
      | .close => { s with client := { s.client with socket := .closed } }
      | _ => s

def run (c₀ : GameBoyClient) (events : List Event) : State :=
  events.foldl step { client := c₀ }

@[simp] theorem run_snoc (c₀ : GameBoyClient) (events : List Event) (event : Event) :
    run c₀ (events ++ [event]) = step (run c₀ events) event := by
  simp [run]

/-! ## The stages of a call -/

inductive Stage
  | delaying
  | sending
  | waiting
  | settled (o : Outcome)
  deriving DecidableEq, Repr

namespace Stage

def next : Stage → Event → Stage
  | .delaying, .write => .sending
  | .sending, .written => .waiting
  | .waiting, .data rx _ => .settled (.resolved rx)
  | .sending, .close | .sending, .writeError => .settled .rejected
  | .waiting, .close | .waiting, .writeError => .settled .rejected
  | stage, _ => stage

def after (events : List Event) : Stage := events.foldl next .delaying

@[simp] theorem after_nil : after [] = .delaying := rfl

@[simp] theorem after_snoc (events : List Event) (event : Event) :
    after (events ++ [event]) = (after events).next event := by
  simp [after]

def outcome : Stage → Option Outcome
  | .settled o => some o
  | _ => none

@[simp] theorem next_settled (o : Outcome) (event : Event) :
    (settled o).next event = .settled o := by
  cases event <;> rfl

theorem after_append_of_settled {events : List Event} {o : Outcome}
    (h : after events = .settled o) (more : List Event) :
    after (events ++ more) = .settled o := by
  induction more using List.reverseRecOn with
  | nil => simpa using h
  | append_singleton more event ih => rw [← List.append_assoc, after_snoc, ih, next_settled]

/-- Events that leave the stage alone. -/
theorem foldl_next_of_fixed {stage : Stage} {events : List Event}
    (h : ∀ event ∈ events, stage.next event = stage) : events.foldl next stage = stage := by
  induction events with
  | nil => rfl
  | cons event events ih =>
      rw [List.foldl_cons, h event List.mem_cons_self]
      exact ih fun e he => h e (List.mem_cons_of_mem event he)

end Stage

/-! ## When a call is answered -/

/-- The events that fail a call once it has written. -/
def Event.isFailure : Event → Bool
  | .writeError | .close => true
  | _ => false

def Event.isData : Event → Bool
  | .data _ _ => true
  | _ => false

/-- The events of a call that waits for its write to complete. -/
def Sending (events : List Event) : Prop :=
  .written ∉ events ∧ ∀ event ∈ events, event.isFailure = false

/-- The events of a call that waits for its reply. -/
def Waiting (events : List Event) : Prop :=
  ∀ event ∈ events, event.isFailure = false ∧ event.isData = false

theorem Sending.snoc {events : List Event} {event : Event} (h : Sending events)
    (hne : event ≠ .written) (hok : event.isFailure = false) : Sending (events ++ [event]) := by
  constructor
  · simpa using ⟨h.1, hne.symm⟩
  · intro e he
    rcases List.mem_append.mp he with he | he
    · exact h.2 e he
    · obtain rfl := List.mem_singleton.mp he
      exact hok

theorem Waiting.snoc {events : List Event} {event : Event} (h : Waiting events)
    (hok : event.isFailure = false) (hnone : event.isData = false) :
    Waiting (events ++ [event]) := by
  intro e he
  rcases List.mem_append.mp he with he | he
  · exact h e he
  · obtain rfl := List.mem_singleton.mp he
    exact ⟨hok, hnone⟩

/-- `rx` is the first byte of the first chunk after the completion of the write,
and nothing had failed until then. -/
def Answered (events : List Event) (rx : Byte) : Prop :=
  ∃ delay pre mid rest post,
    events = delay ++ .write :: (pre ++ .written :: (mid ++ .data rx rest :: post)) ∧
      .write ∉ delay ∧ Sending pre ∧ Waiting mid

namespace Stage

/-- The events that led to a stage. -/
def Story (events : List Event) : Stage → Prop
  | .delaying => .write ∉ events
  | .sending => ∃ delay pre, events = delay ++ .write :: pre ∧ .write ∉ delay ∧ Sending pre
  | .waiting => ∃ delay pre mid, events = delay ++ .write :: (pre ++ .written :: mid) ∧
      .write ∉ delay ∧ Sending pre ∧ Waiting mid
  | .settled (.resolved rx) => Answered events rx
  | .settled .rejected => True

theorem Story.next {events : List Event} {stage : Stage} (h : stage.Story events)
    (event : Event) : (stage.next event).Story (events ++ [event]) := by
  cases stage with
  | delaying =>
      have hdelay : .write ∉ events := h
      cases event
      case write => exact ⟨events, [], rfl, hdelay, by simp [Sending]⟩
      all_goals simpa [Story, Stage.next] using hdelay
  | sending =>
      obtain ⟨delay, pre, rfl, hdelay, hpre⟩ := h
      have hstay : event ≠ .written → event.isFailure = false →
          sending.Story (delay ++ .write :: pre ++ [event]) :=
        fun hne hok => ⟨delay, pre ++ [event], by simp, hdelay, hpre.snoc hne hok⟩
      cases event
      case written => exact ⟨delay, pre, [], by simp, hdelay, hpre, by simp [Waiting]⟩
      case writeError => trivial
      case close => trivial
      all_goals exact hstay (by simp) rfl
  | waiting =>
      obtain ⟨delay, pre, mid, rfl, hdelay, hpre, hmid⟩ := h
      have hstay : event.isFailure = false → event.isData = false →
          waiting.Story (delay ++ .write :: (pre ++ .written :: mid) ++ [event]) :=
        fun hok hnone =>
          ⟨delay, pre, mid ++ [event], by simp, hdelay, hpre, hmid.snoc hok hnone⟩
      cases event
      case data first rest => exact ⟨delay, pre, mid, rest, [], by simp, hdelay, hpre, hmid⟩
      case writeError => trivial
      case close => trivial
      all_goals exact hstay rfl rfl
  | settled o =>
      rw [next_settled]
      cases o with
      | rejected => trivial
      | resolved rx =>
          obtain ⟨delay, pre, mid, rest, post, rfl, hevents⟩ := h
          exact ⟨delay, pre, mid, rest, post ++ [event], by simp, hevents⟩

theorem story_after (events : List Event) : (after events).Story events := by
  induction events using List.reverseRecOn with
  | nil => simp [Story]
  | append_singleton events event ih =>
      rw [after_snoc]
      exact ih.next event

theorem after_of_answered {events : List Event} {rx : Byte} (h : Answered events rx) :
    after events = .settled (.resolved rx) := by
  obtain ⟨delay, pre, mid, rest, post, rfl, hdelay, ⟨hwritten, hpre⟩, hmid⟩ := h
  have hdelaying : delay.foldl next .delaying = .delaying := by
    apply foldl_next_of_fixed
    intro event hevent
    cases event
    case write => exact absurd hevent hdelay
    all_goals rfl
  have hsending : pre.foldl next .sending = .sending := by
    apply foldl_next_of_fixed
    intro event hevent
    have hok := hpre event hevent
    cases event
    case written => exact absurd hevent hwritten
    all_goals first | rfl | cases hok
  have hwaiting : mid.foldl next .waiting = .waiting := by
    apply foldl_next_of_fixed
    intro event hevent
    obtain ⟨hok, hnone⟩ := hmid event hevent
    cases event
    case data => cases hnone
    all_goals first | rfl | cases hok
  have hsettled : post.foldl next (.settled (.resolved rx)) = .settled (.resolved rx) :=
    foldl_next_of_fixed fun event _ => next_settled _ event
  calc after (delay ++ .write :: (pre ++ .written :: (mid ++ .data rx rest :: post)))
      = (.write :: (pre ++ .written :: (mid ++ .data rx rest :: post))).foldl next .delaying := by
        rw [after, List.foldl_append, hdelaying]
    _ = (.written :: (mid ++ .data rx rest :: post)).foldl next .sending := by
        rw [List.foldl_cons, next, List.foldl_append, hsending]
    _ = (.data rx rest :: post).foldl next .waiting := by
        rw [List.foldl_cons, next, List.foldl_append, hwaiting]
    _ = .settled (.resolved rx) := by rw [List.foldl_cons, next, hsettled]

theorem after_eq_resolved_iff (events : List Event) (rx : Byte) :
    after events = .settled (.resolved rx) ↔ Answered events rx := by
  constructor
  · intro h
    have hstory := story_after events
    rwa [h] at hstory
  · exact after_of_answered

/-- A call that has not seen its write complete. -/
theorem next_data_of_not_written {events : List Event} (h : .written ∉ events) (rx : Byte)
    (rest : List Byte) : (after events).next (.data rx rest) = after events := by
  have hstory := story_after events
  cases hafter : after events with
  | delaying => rfl
  | sending => rfl
  | waiting =>
      rw [hafter] at hstory
      obtain ⟨delay, pre, mid, rfl, _⟩ := hstory
      simp at h
  | settled o => exact next_settled o _

end Stage

/-! ## The call in each stage -/

/-- The call has its listeners, and a timer unless its socket is gone. -/
structure Pending (c : GameBoyClient) (e : Exchange) : Prop where
  isOpen : e.Open
  timer : e.timeout = .armed ∨ c.socket ≠ .connected

/-- Nothing of the call is left on the socket or in the timer queue. -/
structure Cleaned (e : Exchange) : Prop where
  timeout : e.timeout ≠ .armed
  dataListener : e.dataListener = false
  closeListener : e.closeListener = false

def Matches (lastReceivedByte : Byte) (s : State) : Stage → Prop
  | .delaying => s.call = none ∧ s.client.lastReceivedByte = lastReceivedByte
  | .sending => s.client.lastReceivedByte = lastReceivedByte ∧
      ∃ e, s.call = some e ∧ Pending s.client e ∧ e.sentByte = false
  | .waiting => s.client.lastReceivedByte = lastReceivedByte ∧
      ∃ e, s.call = some e ∧ Pending s.client e ∧ e.sentByte = true
  | .settled o =>
      s.client.lastReceivedByte =
          (match o with | .resolved rx => rx | .rejected => lastReceivedByte) ∧
      ∃ e, s.call = some e ∧ Cleaned e ∧ e.outcome = some o

variable {b : Byte} {s : State} {stage : Stage}

/-- A settled call is left alone by all that may still happen on its socket. -/
theorem Cleaned.deliver {e : Exchange} {o : Outcome} (h : Cleaned e) (ho : e.outcome = some o)
    (c : GameBoyClient) (event : Event) :
    (deliver c e event).1.lastReceivedByte = c.lastReceivedByte ∧
      Cleaned (deliver c e event).2 ∧ (deliver c e event).2.outcome = some o := by
  cases event
  case write => exact ⟨rfl, h, ho⟩
  case written => exact ⟨rfl, ⟨h.timeout, h.dataListener, h.closeListener⟩, ho⟩
  case writeError =>
      refine ⟨rfl, ⟨?_, rfl, rfl⟩, ?_⟩
      · simp [ExchangeByte.deliver, Exchange.onWrite, Exchange.cleanup, Exchange.settle]
      · simp [ExchangeByte.deliver, Exchange.onWrite, Exchange.cleanup, Exchange.settle, ho]
  case data first rest =>
      have hsame : ExchangeByte.deliver c e (.data first rest) = (c, e) := by
        simp [ExchangeByte.deliver, onData, h.dataListener]
      rw [hsame]
      exact ⟨rfl, h, ho⟩
  case close =>
      have hsame : (ExchangeByte.deliver c e .close).2 = e := by
        simp [ExchangeByte.deliver, Exchange.onClose, h.closeListener]
      rw [hsame]
      exact ⟨rfl, h, ho⟩
  case timeout =>
      have hsame : ExchangeByte.deliver c e .timeout = (c, e) := by
        simp [ExchangeByte.deliver, onTimeout, h.timeout]
      rw [hsame]
      exact ⟨rfl, h, ho⟩

/-- A close and a write error settle the call, and nothing of it remains. -/
theorem Pending.deliver_failure {c : GameBoyClient} {e : Exchange} (h : Pending c e)
    {event : Event} (hevent : event = .close ∨ event = .writeError) :
    (deliver c e event).1.lastReceivedByte = c.lastReceivedByte ∧
      Cleaned (deliver c e event).2 ∧ (deliver c e event).2.outcome = some .rejected := by
  have hcleaned : Cleaned (e.cleanup.settle .rejected) :=
    ⟨by simp [Exchange.cleanup, Exchange.settle], rfl, rfl⟩
  rcases hevent with rfl | rfl
  · refine ⟨rfl, ?_, h.isOpen.onClose_outcome⟩
    simp only [deliver, Exchange.onClose, h.isOpen.closeListener, if_true]
    exact hcleaned
  · exact ⟨rfl, hcleaned, h.isOpen.onWrite_error⟩

/-- The timer destroys the socket and leaves the rest to its close event. -/
theorem Pending.onTimeout {c : GameBoyClient} {e : Exchange} (h : Pending c e) :
    Pending (onTimeout c e).1 (onTimeout c e).2 ∧
      (Client.onTimeout c e).1.lastReceivedByte = c.lastReceivedByte ∧
      (Client.onTimeout c e).2.sentByte = e.sentByte := by
  refine ⟨⟨onTimeout_open h.isOpen c, ?_⟩, ?_⟩
  · unfold Client.onTimeout
    split
    · exact .inr (by simp)
    · exact h.timer
  · unfold Client.onTimeout
    split <;> simp

theorem Pending.deliver_reply {c : GameBoyClient} {e : Exchange} (h : Pending c e)
    (hsent : e.sentByte = true) (rx : Byte) :
    (onData c e rx).1.lastReceivedByte = rx ∧ Cleaned (onData c e rx).2 ∧
      (onData c e rx).2.outcome = some (.resolved rx) := by
  obtain ⟨hclient, houtcome⟩ := onData_of_sent h.isOpen hsent c rx
  refine ⟨by simp [hclient], ?_, houtcome⟩
  simp only [onData, h.isOpen.dataListener, hsent, if_true]
  exact ⟨by simp [Exchange.cleanup, Exchange.settle], rfl, rfl⟩

theorem matches_init (c₀ : GameBoyClient) :
    Matches c₀.lastReceivedByte { client := c₀ } .delaying :=
  ⟨rfl, rfl⟩

theorem matches_step_delaying (h : Matches b s .delaying) (event : Event) :
    Matches b (step s event) (Stage.delaying.next event) := by
  obtain ⟨hcall, hlast⟩ := h
  cases event
  case write =>
      refine ⟨by simpa [step, hcall] using hlast, .start, by simp [step, hcall], ?_, rfl⟩
      exact ⟨Exchange.open_start, .inl rfl⟩
  all_goals exact ⟨by simp [step, hcall], by simpa [step, hcall] using hlast⟩

/-- While the exchange is pending, a close or a write error rejects it. -/
theorem matches_step_failure {e : Exchange} (hlast : s.client.lastReceivedByte = b)
    (hcall : s.call = some e) (hpending : Pending s.client e) {event : Event}
    (hevent : event = .close ∨ event = .writeError) :
    Matches b (step s event) (.settled .rejected) := by
  obtain ⟨hlast', hcleaned, houtcome⟩ := hpending.deliver_failure hevent
  simp only [step, hcall]
  exact ⟨hlast'.trans hlast, _, rfl, hcleaned, houtcome⟩

theorem matches_step_sending (h : Matches b s .sending) (event : Event) :
    Matches b (step s event) (Stage.sending.next event) := by
  obtain ⟨hlast, e, hcall, hpending, hsent⟩ := h
  cases event
  case writeError => exact matches_step_failure hlast hcall hpending (.inr rfl)
  case close => exact matches_step_failure hlast hcall hpending (.inl rfl)
  all_goals simp only [step, hcall]
  case write => exact ⟨hlast, e, rfl, hpending, hsent⟩
  case written =>
      exact ⟨hlast, e.onWrite false, rfl, ⟨hpending.isOpen.onWrite_ok, hpending.timer⟩, rfl⟩
  case data first rest =>
      simp only [deliver, onData_of_not_sent hsent]
      exact ⟨hlast, e, rfl, hpending, hsent⟩
  case timeout =>
      obtain ⟨hpending', hlast', hsent'⟩ := hpending.onTimeout
      exact ⟨hlast'.trans hlast, _, rfl, hpending', hsent'.trans hsent⟩

theorem matches_step_waiting (h : Matches b s .waiting) (event : Event) :
    Matches b (step s event) (Stage.waiting.next event) := by
  obtain ⟨hlast, e, hcall, hpending, hsent⟩ := h
  cases event
  case writeError => exact matches_step_failure hlast hcall hpending (.inr rfl)
  case close => exact matches_step_failure hlast hcall hpending (.inl rfl)
  all_goals simp only [step, hcall]
  case write => exact ⟨hlast, e, rfl, hpending, hsent⟩
  case written =>
      exact ⟨hlast, e.onWrite false, rfl, ⟨hpending.isOpen.onWrite_ok, hpending.timer⟩, rfl⟩
  case data first rest =>
      obtain ⟨hlast', hcleaned, houtcome⟩ := hpending.deliver_reply hsent first
      exact ⟨hlast', _, rfl, hcleaned, houtcome⟩
  case timeout =>
      obtain ⟨hpending', hlast', hsent'⟩ := hpending.onTimeout
      exact ⟨hlast'.trans hlast, _, rfl, hpending', hsent'.trans hsent⟩

theorem matches_step_settled {o : Outcome} (h : Matches b s (.settled o)) (event : Event) :
    Matches b (step s event) ((Stage.settled o).next event) := by
  obtain ⟨hlast, e, hcall, hcleaned, houtcome⟩ := h
  obtain ⟨hlast', hcleaned', houtcome'⟩ := hcleaned.deliver houtcome s.client event
  rw [Stage.next_settled]
  simp only [step, hcall]
  exact ⟨hlast'.trans hlast, _, rfl, hcleaned', houtcome'⟩

theorem matches_step (h : Matches b s stage) (event : Event) :
    Matches b (step s event) (stage.next event) := by
  cases stage with
  | delaying => exact matches_step_delaying h event
  | sending => exact matches_step_sending h event
  | waiting => exact matches_step_waiting h event
  | settled o => exact matches_step_settled h event

theorem matches_run (c₀ : GameBoyClient) (events : List Event) :
    Matches c₀.lastReceivedByte (run c₀ events) (.after events) := by
  induction events using List.reverseRecOn with
  | nil => exact matches_init c₀
  | append_singleton events event ih =>
      rw [run_snoc, Stage.after_snoc]
      exact matches_step ih event

theorem Matches.outcome (h : Matches b s stage) : s.outcome = stage.outcome := by
  cases stage with
  | delaying => simp [State.outcome, h.1, Stage.outcome]
  | sending =>
      obtain ⟨_, e, hcall, hpending, _⟩ := h
      simp [State.outcome, hcall, hpending.isOpen.outcome, Stage.outcome]
  | waiting =>
      obtain ⟨_, e, hcall, hpending, _⟩ := h
      simp [State.outcome, hcall, hpending.isOpen.outcome, Stage.outcome]
  | settled o =>
      obtain ⟨_, e, hcall, _, houtcome⟩ := h
      simp [State.outcome, hcall, houtcome, Stage.outcome]

theorem outcome_run (c₀ : GameBoyClient) (events : List Event) :
    (run c₀ events).outcome = (Stage.after events).outcome :=
  (matches_run c₀ events).outcome

/-! ## Every path -/

/-- What a call of `exchangeByte` owes its caller after the events. -/
structure CleansUp (c₀ : GameBoyClient) (events : List Event) : Prop where
  /-- The promise settles at most once. -/
  settles_once : ∀ o more, (run c₀ events).outcome = some o →
    (run c₀ (events ++ more)).outcome = some o
  /-- From the write on an unsettled call listens, and the timer or the socket's
  end will still settle it. -/
  pending : ∀ e, (run c₀ events).call = some e → e.outcome = none →
    e.dataListener = true ∧ e.closeListener = true ∧
      (e.timeout = .armed ∨ (run c₀ events).client.socket ≠ .connected)
  /-- A settled call has left nothing behind. -/
  settled : ∀ e, (run c₀ events).call = some e → e.outcome ≠ none →
    e.timeout ≠ .armed ∧ e.dataListener = false ∧ e.closeListener = false
  /-- A chunk that comes before the completion of the write settles nothing. -/
  early_data : ∀ rx rest, .written ∉ events →
    (run c₀ (events ++ [.data rx rest])).outcome = (run c₀ events).outcome
  resolved_iff : ∀ rx, (run c₀ events).outcome = some (.resolved rx) ↔ Answered events rx
  /-- Only a resolved call has changed `lastReceivedByte`. -/
  lastReceivedByte : (run c₀ events).client.lastReceivedByte =
    match (run c₀ events).outcome with
    | some (.resolved rx) => rx
    | _ => c₀.lastReceivedByte

theorem Stage.outcome_eq_some {stage : Stage} {o : Outcome} :
    stage.outcome = some o ↔ stage = .settled o := by
  cases stage <;> simp [Stage.outcome]

theorem Matches.pending {e : Exchange} (h : Matches b s stage) (hcall : s.call = some e)
    (houtcome : e.outcome = none) : Pending s.client e := by
  cases stage with
  | delaying => simp [h.1] at hcall
  | sending =>
      obtain ⟨_, e', hcall', hpending, _⟩ := h
      obtain rfl : e' = e := Option.some.inj (hcall'.symm.trans hcall)
      exact hpending
  | waiting =>
      obtain ⟨_, e', hcall', hpending, _⟩ := h
      obtain rfl : e' = e := Option.some.inj (hcall'.symm.trans hcall)
      exact hpending
  | settled o =>
      obtain ⟨_, e', hcall', _, houtcome'⟩ := h
      obtain rfl : e' = e := Option.some.inj (hcall'.symm.trans hcall)
      simp [houtcome] at houtcome'

theorem Matches.cleaned {e : Exchange} (h : Matches b s stage) (hcall : s.call = some e)
    (houtcome : e.outcome ≠ none) : Cleaned e := by
  obtain ⟨o, ho⟩ := Option.ne_none_iff_exists'.mp houtcome
  have hstage : stage = .settled o := by
    rw [← Stage.outcome_eq_some, ← h.outcome, State.outcome, hcall]
    exact ho
  subst hstage
  obtain ⟨_, e', hcall', hcleaned, _⟩ := h
  obtain rfl : e' = e := Option.some.inj (hcall'.symm.trans hcall)
  exact hcleaned

theorem Matches.lastReceivedByte (h : Matches b s stage) :
    s.client.lastReceivedByte =
      match stage.outcome with
      | some (.resolved rx) => rx
      | _ => b := by
  cases stage with
  | delaying => exact h.2
  | sending => exact h.1
  | waiting => exact h.1
  | settled o => cases o <;> exact h.1

/-- Whatever happens to a call of `exchangeByte`, in whatever order, it settles
at most once, cannot hang, leaves nothing behind and changes
`lastReceivedByte` to its result only. -/
theorem exchangeByte_cleansUp (c₀ : GameBoyClient) (events : List Event) :
    CleansUp c₀ events := by
  have hmatches := matches_run c₀ events
  constructor
  case settles_once =>
      intro o more h
      rw [outcome_run, Stage.outcome_eq_some] at h ⊢
      exact Stage.after_append_of_settled h more
  case pending =>
      intro e hcall houtcome
      obtain ⟨hopen, htimer⟩ := hmatches.pending hcall houtcome
      exact ⟨hopen.dataListener, hopen.closeListener, htimer⟩
  case settled =>
      intro e hcall houtcome
      obtain ⟨htimer, hdata, hclose⟩ := hmatches.cleaned hcall houtcome
      exact ⟨htimer, hdata, hclose⟩
  case early_data =>
      intro rx rest h
      rw [outcome_run, outcome_run, Stage.after_snoc, Stage.next_data_of_not_written h]
  case resolved_iff =>
      intro rx
      rw [outcome_run, Stage.outcome_eq_some, Stage.after_eq_resolved_iff]
  case lastReceivedByte =>
      rw [hmatches.lastReceivedByte, outcome_run]

end GbPlay.Server.ExchangeByte
