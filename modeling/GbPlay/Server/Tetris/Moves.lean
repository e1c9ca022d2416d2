import Mathlib.Data.List.Nodup
import Mathlib.Logic.Relation
import GbPlay.Server.Tetris.Model

/-!
# What a step of a session can do

A step of the session calls its state handler, resumes it, or is a sequence of
moves, each of which advances or settles at most one exchange.  That a data
or close event reaches at most one exchange is where `Exclusive` is used: no
two activities serve the same client.
-/

namespace GbPlay.Server.Tetris.Moves

open GbPlay.Server.Client GbPlay.Server.Script GbPlay.Server.Tetris.Data
open GbPlay.Server.Tetris.Handlers GbPlay.Server.Tetris.Model

/-- The listeners of an exchange are in place, and its write has been called
back only if it handed over the byte. -/
def Sound (call : Call) : Prop :=
  match call with
  | .delaying _ => True
  | .exchanging accepted e => e.Open ∧ (e.sentByte = true → accepted = true)

structure Exclusive (w : World) : Prop where
  nodup : w.working.Nodup
  sound : ∀ a ∈ w.running, Sound a.call

theorem client_mem_owners (a : Activity) : a.client ∈ a.owners := by
  unfold Activity.owners
  split <;> simp

inductive Move (w : World) : World → Prop
  | sockets (client : ClientId → GameBoyClient) : Move w { w with client := client }
  | ended : Move w w.endSession
  | joined (c : ClientId) : w.session.isJoinable = true → c ∉ w.joined →
      Move w { w with
        session := { w.session with toGameSession := w.session.addClient c }
        joined := w.joined ++ [c] }
  | stopped (frame : Frame) (b : Barrier) : w.handler = .suspended frame b → b.rejected = true →
      Move w { w with handler := .stopped }
  | accepted (pre post : List Activity) (a : Activity) (b : Byte) :
      w.running = pre ++ a :: post → a.call = .delaying b →
      Move w { w with
        running := pre ++ { a with call := .exchanging true .start } :: post
        phase := w.phase ++ [.sent a.step a.client b] }
  | refused (pre post : List Activity) (a : Activity) (b : Byte) :
      w.running = pre ++ a :: post → a.call = .delaying b →
      Move w { w with running := pre ++ { a with call := .exchanging false .start } :: post }
  | kept (pre post : List Activity) (a : Activity) (accepted : Bool) (e e' : Exchange) :
      w.running = pre ++ a :: post → a.call = .exchanging accepted e →
      Sound (.exchanging accepted e') →
      Move w { w with running := pre ++ { a with call := .exchanging accepted e' } :: post }
  | resolved (pre post : List Activity) (a : Activity) (e : Exchange) (rx : Byte) (now : Int) :
      w.running = pre ++ a :: post → a.call = .exchanging true e →
      Move w ({ w with running := pre ++ post }.onResolved a rx now)
  | rejected (pre post : List Activity) (a : Activity) (accepted : Bool) (e : Exchange) :
      w.running = pre ++ a :: post → a.call = .exchanging accepted e →
      Move w ({ w with running := pre ++ post }.onRejected a)

abbrev Path : World → World → Prop := Relation.ReflTransGen Move

/-! ## What follows a reply -/

def received (client : ClientId → GameBoyClient) (c : ClientId) (rx : Byte) :
    ClientId → GameBoyClient :=
  Function.update client c { client c with lastReceivedByte := rx }

/-- A reply lets a callback exchange its next byte, lets `forwardByte` turn to
the other client, or completes the part of its client. -/
theorem onResolved_cases (w : World) (a : Activity) (rx : Byte) (now : Int) :
    (∃ ops b, a.cont = .callback ops ∧ nextByte (afterReply ops rx) = some b ∧
      w.onResolved a rx now = { w with
        client := received w.client a.client rx
        running := w.running ++ [callbackActivity a.step (afterReply ops rx) b a.client]
        phase := w.phase ++ [.answered a.step a.client rx] }) ∨
    (∃ self b₁, a.cont = .forwardOther self ∧
      b₁ = (received w.client a.client rx self).lastReceivedByte ∧
      w.onResolved a rx now = { w with
        client := received w.client a.client rx
        handler := (w.handler.transfer a.step b₁ rx now).complete a.step a.client
        running := w.running ++ [{
          step := a.step, client := self, call := .delaying rx, cont := .forwardSelf }]
        phase := w.phase ++ [.answered a.step a.client rx] ++ [.transferred b₁ rx] ++
          [.completed a.step a.client] }) ∨
    ((a.cont = .forwardSelf ∨
        ∃ ops, a.cont = .callback ops ∧ nextByte (afterReply ops rx) = none) ∧
      w.onResolved a rx now = { w with
        client := received w.client a.client rx
        handler := w.handler.complete a.step a.client
        phase := w.phase ++ [.answered a.step a.client rx] ++ [.completed a.step a.client] }) := by
  cases hcont : a.cont with
  | callback ops =>
      cases hnext : nextByte (afterReply ops rx) with
      | some b =>
          left
          refine ⟨ops, b, rfl, hnext, ?_⟩
          simp only [World.onResolved, hcont, hnext, received]
      | none =>
          right; right
          refine ⟨.inr ⟨ops, rfl, hnext⟩, ?_⟩
          simp only [World.onResolved, hcont, hnext, received, World.complete]
  | forwardOther self =>
      right; left
      refine ⟨self, _, rfl, rfl, ?_⟩
      simp only [World.onResolved, hcont, received, World.complete, Function.update_self]
  | forwardSelf =>
      right; right
      refine ⟨.inl rfl, ?_⟩
      simp only [World.onResolved, hcont, received, World.complete]

/-! ## Finding the activities of a step -/

section Lists

variable {α : Type*} {p : α → Bool} {l : List α}

theorem split_of_getElem? {i : Nat} {a : α} (h : l[i]? = some a) :
    ∃ pre post, l = pre ++ a :: post ∧ (∀ b, l.set i b = pre ++ b :: post) ∧
      l.eraseIdx i = pre ++ post := by
  obtain ⟨hi, rfl⟩ := List.getElem?_eq_some_iff.mp h
  refine ⟨l.take i, l.drop (i + 1), ?_, fun b => ?_, ?_⟩
  · rw [List.getElem_cons_drop, List.take_append_drop]
  · exact List.set_eq_take_append_cons_drop.trans (if_pos hi)
  · exact List.eraseIdx_eq_take_drop_succ l i

theorem filter_eq_nil_or_split (h : (l.filter p).length ≤ 1) :
    (l.filter p = [] ∧ l.filter (!p ·) = l) ∨
      ∃ pre a post, l = pre ++ a :: post ∧ p a = true ∧ l.filter p = [a] ∧
        l.filter (!p ·) = pre ++ post := by
  induction l with
  | nil => simp
  | cons x l ih =>
      by_cases hx : p x = true
      · right
        have hnil : l.filter p = [] := by
          rw [List.filter_cons_of_pos hx] at h
          simpa using h
        have hself : l.filter (!p ·) = l := by
          rw [List.filter_eq_self]
          intro a ha
          simpa using List.filter_eq_nil_iff.mp hnil a ha
        exact ⟨[], x, l, by simp, hx, by simp [hx, hnil], by simp [hx, hself]⟩
      · rw [List.filter_cons_of_neg hx] at h ⊢
        have hnot : (!p x) = true := by simpa using hx
        rw [List.filter_cons, if_pos hnot]
        rcases ih h with ⟨hnil, hself⟩ | ⟨pre, a, post, rfl, ha, hfilter, hrest⟩
        · exact .inl ⟨hnil, by rw [hself]⟩
        · exact .inr ⟨x :: pre, a, post, rfl, ha, hfilter, by simp [hrest]⟩

end Lists

theorem Exclusive.length_filter_le_one {w : World} (h : Exclusive w) {p : Activity → Bool}
    (c : ClientId) (hp : ∀ a ∈ w.running, p a = true → a.client = c) :
    (w.running.filter p).length ≤ 1 := by
  have hdisjoint := ((List.nodup_flatMap.mp h.nodup).2).filter p
  match hfilter : w.running.filter p with
  | [] => simp
  | [_] => simp
  | a :: a' :: rest =>
      have hmem : ∀ x ∈ a :: a' :: rest, x.client = c := by
        rw [← hfilter]
        intro x hx
        exact hp x (List.mem_of_mem_filter hx) (List.of_mem_filter hx)
      rw [hfilter] at hdisjoint
      have hshared := (List.pairwise_cons.mp hdisjoint).1 a' List.mem_cons_self
      have ha := client_mem_owners a
      have ha' := client_mem_owners a'
      rw [hmem a (by simp)] at ha
      rw [hmem a' (by simp)] at ha'
      exact absurd ha' (hshared ha)

/-! ## Steps as moves -/

attribute [local simp] step

theorem endSession_running (w : World) (running : List Activity) :
    { w with running := running }.endSession = { w.endSession with running := running } := by
  unfold World.endSession
  split <;> rfl

theorem sound_start (accepted : Bool) : Sound (.exchanging accepted .start) :=
  ⟨Exchange.open_start, by simp [Exchange.start]⟩

theorem sound_written {e : Exchange} (h : Sound (.exchanging true e)) :
    Sound (.exchanging true (e.onWrite false)) :=
  ⟨h.1.onWrite_ok, fun _ => rfl⟩

theorem sound_timeout {accepted : Bool} {e : Exchange} (h : Sound (.exchanging accepted e))
    (c : GameBoyClient) : Sound (.exchanging accepted (onTimeout c e).2) := by
  refine ⟨onTimeout_open h.1 c, ?_⟩
  unfold onTimeout
  split
  · exact h.2
  · exact h.2

/-- Only an exchange whose byte was handed over hears a reply. -/
theorem accepted_of_hears {a : Activity} {client : ClientId → GameBoyClient} {c : ClientId}
    {rx : Byte} (hsound : Sound a.call) (h : a.hears client c rx = true) :
    a.client = c ∧ ∃ e, a.call = .exchanging true e := by
  unfold Activity.hears at h
  split at h
  case h_2 => simp at h
  case h_1 accepted e hcall =>
      rw [hcall] at hsound
      simp only [Bool.and_eq_true, decide_eq_true_eq] at h
      refine ⟨h.1, e, ?_⟩
      cases hsent : e.sentByte with
      | true => rw [hcall, hsound.2 hsent]
      | false =>
          rw [onData_of_not_sent hsent, hsound.1.outcome] at h
          simp at h

theorem exchanging_of_losesSocket {a : Activity} {c : ClientId} (h : a.losesSocket c = true) :
    a.client = c ∧ ∃ accepted e, a.call = .exchanging accepted e := by
  unfold Activity.losesSocket at h
  split at h
  case h_2 => simp at h
  case h_1 accepted e hcall =>
      simp only [Bool.and_eq_true, decide_eq_true_eq] at h
      exact ⟨h.1, accepted, e, hcall⟩

theorem path_data {w w' : World} (hw : Exclusive w) {c : ClientId} {rx : Byte} {now : Int}
    (h : step w (.data c rx now) = some w') : Path w w' := by
  simp only [step, Option.ite_none_right_eq_some, Option.some.injEq] at h
  obtain ⟨_, rfl⟩ := h
  have hone : (w.running.filter (·.hears w.client c rx)).length ≤ 1 := by
    refine hw.length_filter_le_one c ?_
    exact fun a ha hears => (accepted_of_hears (hw.sound a ha) hears).1
  rcases filter_eq_nil_or_split hone with ⟨hnil, hself⟩ | ⟨pre, a, post, hsplit, ha, heq, hrest⟩
  · rw [hnil, hself]
    exact .refl
  · rw [heq, hrest]
    have hmem : a ∈ w.running := by simp [hsplit]
    obtain ⟨_, e, hcall⟩ := accepted_of_hears (hw.sound a hmem) ha
    exact .single (.resolved pre post a e rx now hsplit hcall)

theorem path_close {w w' : World} (hw : Exclusive w) {c : ClientId}
    (h : step w (.close c) = some w') : Path w w' := by
  simp only [step, Option.ite_none_right_eq_some, Option.some.injEq] at h
  obtain ⟨_, rfl⟩ := h
  have hone : (w.running.filter (·.losesSocket c)).length ≤ 1 := by
    refine hw.length_filter_le_one c ?_
    exact fun a _ hloses => (exchanging_of_losesSocket hloses).1
  have hended : Path w { w with client := setSocket w.client c .closed }.endSession :=
    .tail (.single (.sockets _)) .ended
  rcases filter_eq_nil_or_split hone with ⟨hnil, hself⟩ | ⟨pre, a, post, hsplit, ha, heq, hrest⟩
  · rw [hnil, hself]
    exact hended
  · rw [heq, hrest]
    obtain ⟨_, accepted, e, hcall⟩ := exchanging_of_losesSocket ha
    refine hended.tail ?_
    have hrunning : { w with client := setSocket w.client c .closed }.endSession.running =
        pre ++ a :: post := by
      rw [← hsplit]
      unfold World.endSession
      split <;> rfl
    have hmove := Move.rejected pre post a accepted e hrunning hcall
    rw [← endSession_running] at hmove
    exact hmove

theorem path_write {w w' : World} {i : Nat} {accepted : Bool}
    (h : step w (.write i accepted) = some w') : Path w w' := by
  simp only [step] at h
  split at h
  case h_2 => simp at h
  case h_1 a hget =>
      obtain ⟨pre, post, hsplit, hset, _⟩ := split_of_getElem? hget
      split at h
      case h_2 => simp at h
      case h_1 b hcall =>
          rw [hset] at h
          split at h
          case isFalse hno =>
              obtain rfl := Option.some.inj h
              obtain rfl : accepted = false := by simpa using hno
              exact .single (.refused pre post a b hsplit hcall)
          case isTrue hyes =>
              simp only [Option.ite_none_right_eq_some, Option.some.injEq] at h
              obtain ⟨_, rfl⟩ := h
              obtain rfl : accepted = true := hyes
              exact .single (.accepted pre post a b hsplit hcall)

theorem path_written {w w' : World} (hw : Exclusive w) {i : Nat}
    (h : step w (.written i) = some w') : Path w w' := by
  simp only [step] at h
  split at h
  case h_2 => simp at h
  case h_1 a hget =>
      obtain ⟨pre, post, hsplit, hset, _⟩ := split_of_getElem? hget
      split at h
      case h_2 => simp at h
      case h_1 e hcall =>
          simp only [Option.ite_none_left_eq_some, Option.some.injEq] at h
          obtain ⟨_, rfl⟩ := h
          rw [hset]
          have hsound := hw.sound a (by simp [hsplit])
          rw [hcall] at hsound
          exact .single (.kept pre post a true e _ hsplit hcall (sound_written hsound))

theorem path_writeError {w w' : World} {i : Nat} (h : step w (.writeError i) = some w') :
    Path w w' := by
  simp only [step] at h
  split at h
  case h_2 => simp at h
  case h_1 a hget =>
      obtain ⟨pre, post, hsplit, _, herase⟩ := split_of_getElem? hget
      split at h
      case h_2 => simp at h
      case h_1 accepted e hcall =>
          simp only [Option.ite_none_left_eq_some, Option.some.injEq] at h
          obtain ⟨_, rfl⟩ := h
          rw [herase]
          have hsockets : Move w { w with client := disconnectAll w.client [a.client] } :=
            .sockets _
          exact .tail (.single hsockets) (.rejected pre post a accepted e hsplit hcall)

theorem path_timeout {w w' : World} (hw : Exclusive w) {i : Nat}
    (h : step w (.timeout i) = some w') : Path w w' := by
  simp only [step] at h
  split at h
  case h_2 => simp at h
  case h_1 a hget =>
      obtain ⟨pre, post, hsplit, hset, _⟩ := split_of_getElem? hget
      split at h
      case h_2 => simp at h
      case h_1 accepted e hcall =>
          obtain rfl := Option.some.inj h
          rw [hset]
          have hsound := hw.sound a (by simp [hsplit])
          rw [hcall] at hsound
          have hsockets : Move w { w with
              client := Function.update w.client a.client (onTimeout (w.client a.client) e).1 } :=
            .sockets _
          exact .tail (.single hsockets)
            (.kept pre post a accepted e _ hsplit hcall (sound_timeout hsound _))

theorem step_tick {w w' : World} {draws : Draws} {now₀ now₁ : Int}
    (h : step w (.tick draws now₀ now₁) = some w') :
    w.handler = .scheduled ∧ w' = w.handleState draws now₀ now₁ := by
  simp only [step] at h
  split at h
  case h_1 hhandler => exact ⟨hhandler, (Option.some.inj h).symm⟩
  case h_2 => simp at h

/-- A step calls the state handler, resumes it, or is a sequence of moves. -/
theorem step_cases {w w' : World} (hw : Exclusive w) {l : Label} (h : step w l = some w') :
    (∃ draws now₀ now₁, l = .tick draws now₀ now₁ ∧ w.handler = .scheduled ∧
      w' = w.handleState draws now₀ now₁) ∨
    (∃ frame b now, w.handler = .suspended frame b ∧ b.pending = [] ∧ b.rejected = false ∧
      w' = w.perform (Handlers.resume w.session now frame)) ∨
    Path w w' := by
  cases l with
  | join c =>
      simp only [step, Option.ite_none_right_eq_some, Option.some.injEq] at h
      obtain ⟨⟨hjoinable, hnew⟩, rfl⟩ := h
      exact .inr (.inr (.single (.joined c hjoinable hnew)))
  | tick draws now₀ now₁ =>
      obtain ⟨hhandler, heq⟩ := step_tick h
      exact .inl ⟨draws, now₀, now₁, rfl, hhandler, heq⟩
  | resume now =>
      simp only [step] at h
      split at h
      case h_2 => simp at h
      case h_1 frame b hhandler =>
          simp only [Option.ite_none_right_eq_some, Option.some.injEq] at h
          obtain ⟨⟨hpending, hrejected⟩, rfl⟩ := h
          exact .inr (.inl ⟨frame, b, now, hhandler, hpending, hrejected, rfl⟩)
  | reject =>
      simp only [step] at h
      split at h
      case h_2 => simp at h
      case h_1 frame b hhandler =>
          simp only [Option.ite_none_right_eq_some, Option.some.injEq] at h
          obtain ⟨hrejected, rfl⟩ := h
          right; right
          have hkept : w.endSession.handler = .suspended frame b := by
            unfold World.endSession
            split <;> exact hhandler
          exact .tail (.single .ended) (.stopped frame b hkept hrejected)
  | write i accepted => exact .inr (.inr (path_write h))
  | written i => exact .inr (.inr (path_written hw h))
  | writeError i => exact .inr (.inr (path_writeError h))
  | timeout i => exact .inr (.inr (path_timeout hw h))
  | data c rx now => exact .inr (.inr (path_data hw h))
  | close c => exact .inr (.inr (path_close hw h))

/-! ## What moves leave to the handlers -/

/-- The frames of two handlers agree, but for bytes seen by the closure that the
suspended handler passed as `onTransfer`. -/
inductive SameFrame : Handler → Handler → Prop
  | scheduled : SameFrame .scheduled .scheduled
  | stopped : SameFrame .stopped .stopped
  | failed (frame : Frame) (b : Barrier) : SameFrame (.suspended frame b) .stopped
  | suspended (frame : Frame) (b b' : Barrier) :
      SameFrame (.suspended frame b) (.suspended frame b')
  | transferred (frame : Frame) (b b' : Barrier) (b₁ b₂ : Byte) (now : Int) :
      SameFrame (.suspended frame b) (.suspended (onTransfer b₁ b₂ now frame) b')

theorem SameFrame.refl (h : Handler) : SameFrame h h := by
  cases h with
  | scheduled => exact .scheduled
  | suspended frame b => exact .suspended frame b b
  | stopped => exact .stopped

theorem sameFrame_complete (h : Handler) (step : Nat) (c : ClientId) :
    SameFrame h (h.complete step c) := by
  cases h with
  | scheduled => exact .scheduled
  | stopped => exact .stopped
  | suspended frame b =>
      simp only [Handler.complete]
      split <;> exact .suspended _ _ _

theorem sameFrame_reject (h : Handler) (step : Nat) : SameFrame h (h.reject step) := by
  cases h with
  | scheduled => exact .scheduled
  | stopped => exact .stopped
  | suspended frame b =>
      simp only [Handler.reject]
      split <;> exact .suspended _ _ _

theorem sameFrame_transfer (h : Handler) (step : Nat) (c : ClientId) (b₁ b₂ : Byte) (now : Int) :
    SameFrame h ((h.transfer step b₁ b₂ now).complete step c) := by
  cases h with
  | scheduled => exact .scheduled
  | stopped => exact .stopped
  | suspended frame b =>
      simp only [Handler.transfer]
      split
      · simp only [Handler.complete]
        split <;> exact .transferred _ _ _ _ _ _
      · exact sameFrame_complete _ _ _

/-- An event that only a handler records. -/
def ofHandler (e : Event) : Bool :=
  match e with
  | .handlerStarted _ | .generated _ _ | .reset | .roundCompleted _ _ | .begun _ _ _ => true
  | _ => false

/-- The step an event belongs to. -/
def stepOf (e : Event) : Option Nat :=
  match e with
  | .begun n _ _ | .sent n _ _ | .answered n _ _ | .failed n _ | .completed n _ => some n
  | _ => none

/-- A move changes neither the session's state nor its counts, and records only
what happens to the clients. -/
structure Quiet (w w' : World) : Prop where
  state : w'.session.state = w.session.state
  client1WinCount : w'.session.client1WinCount = w.session.client1WinCount
  client2WinCount : w'.session.client2WinCount = w.session.client2WinCount
  ended : w.session.ended = true → w'.session.ended = true
  steps : w'.steps = w.steps
  handler : SameFrame w.handler w'.handler
  past : w'.past = w.past
  phase : ∃ events, w'.phase = w.phase ++ events ∧ ∀ e ∈ events, ofHandler e = false

theorem quiet_of_session {w w' : World} (hstate : w'.session.state = w.session.state)
    (hcount₁ : w'.session.client1WinCount = w.session.client1WinCount)
    (hcount₂ : w'.session.client2WinCount = w.session.client2WinCount)
    (hended : w'.session.ended = w.session.ended) (hsteps : w'.steps = w.steps)
    (hpast : w'.past = w.past) (hhandler : SameFrame w.handler w'.handler)
    (events : List Event) (hphase : w'.phase = w.phase ++ events)
    (hevents : ∀ e ∈ events, ofHandler e = false) : Quiet w w' :=
  ⟨hstate, hcount₁, hcount₂, fun h => hended ▸ h, hsteps, hhandler, hpast, events, hphase, hevents⟩

theorem quiet_endSession (w : World) : Quiet w w.endSession := by
  unfold World.endSession
  split
  · exact quiet_of_session rfl rfl rfl rfl rfl rfl (.refl _) [] (by simp) (by simp)
  · exact ⟨rfl, rfl, rfl, fun _ => by simp, rfl, .refl _, rfl, [.ended], rfl, by simp [ofHandler]⟩

theorem quiet_resolved (w : World) (a : Activity) (rx : Byte) (now : Int) :
    Quiet w (w.onResolved a rx now) := by
  obtain ⟨ops, b, _, _, heq⟩ | ⟨self, b₁, _, _, heq⟩ | ⟨_, heq⟩ := onResolved_cases w a rx now
  · rw [heq]
    exact quiet_of_session rfl rfl rfl rfl rfl rfl (.refl _) [.answered a.step a.client rx] rfl
      (by simp [ofHandler])
  · rw [heq]
    exact quiet_of_session rfl rfl rfl rfl rfl rfl (sameFrame_transfer _ _ _ _ _ _)
      [.answered a.step a.client rx, .transferred b₁ rx, .completed a.step a.client] (by simp)
      (by simp [ofHandler])
  · rw [heq]
    exact quiet_of_session rfl rfl rfl rfl rfl rfl (sameFrame_complete _ _ _)
      [.answered a.step a.client rx, .completed a.step a.client] (by simp) (by simp [ofHandler])

theorem quiet_rejected (w : World) (a : Activity) : Quiet w (w.onRejected a) :=
  quiet_of_session rfl rfl rfl rfl rfl rfl (sameFrame_reject _ _) [.failed a.step a.client] rfl
    (by simp [ofHandler])

theorem move_quiet {w w' : World} (h : Move w w') : Quiet w w' := by
  cases h with
  | ended => exact quiet_endSession w
  | stopped frame b hhandler _ =>
      have hframe : SameFrame w.handler .stopped := hhandler ▸ .failed frame b
      exact quiet_of_session rfl rfl rfl rfl rfl rfl hframe [] (by simp) (by simp)
  | accepted pre post a b _ _ =>
      exact quiet_of_session rfl rfl rfl rfl rfl rfl (.refl _) [.sent a.step a.client b] rfl
        (by simp [ofHandler])
  | resolved pre post a e rx now _ _ =>
      exact { quiet_resolved { w with running := pre ++ post } a rx now with }
  | rejected pre post a accepted e _ _ =>
      exact { quiet_rejected { w with running := pre ++ post } a with }
  | _ => exact quiet_of_session rfl rfl rfl rfl rfl rfl (.refl _) [] (by simp) (by simp)

/-- What a move records belongs to steps of running activities. -/
theorem move_steps {w w' : World} (h : Move w w') :
    ∃ events, w'.phase = w.phase ++ events ∧
      ∀ e ∈ events, ∀ m, stepOf e = some m → ∃ a ∈ w.running, a.step = m := by
  cases h with
  | ended =>
      unfold World.endSession
      split
      · exact ⟨[], by simp, by simp⟩
      · exact ⟨[.ended], rfl, by simp [stepOf]⟩
  | accepted pre post a b hsplit _ =>
      refine ⟨[.sent a.step a.client b], rfl, ?_⟩
      rintro e he m hm
      obtain rfl := List.mem_singleton.mp he
      exact ⟨a, by simp [hsplit], Option.some.inj hm⟩
  | rejected pre post a accepted e hsplit _ =>
      refine ⟨[.failed a.step a.client], rfl, ?_⟩
      rintro e he m hm
      obtain rfl := List.mem_singleton.mp he
      exact ⟨a, by simp [hsplit], Option.some.inj hm⟩
  | resolved pre post a e rx now hsplit _ =>
      have ha : a ∈ w.running := by simp [hsplit]
      obtain ⟨ops, b, _, _, heq⟩ | ⟨self, b₁, _, _, heq⟩ | ⟨_, heq⟩ :=
        onResolved_cases { w with running := pre ++ post } a rx now
      · refine ⟨[.answered a.step a.client rx], by rw [heq], ?_⟩
        simpa [stepOf] using ⟨a, ha, rfl⟩
      · refine ⟨[.answered a.step a.client rx, .transferred b₁ rx, .completed a.step a.client],
          by simp [heq], ?_⟩
        simpa [stepOf] using ⟨a, ha, rfl⟩
      · refine ⟨[.answered a.step a.client rx, .completed a.step a.client], by simp [heq], ?_⟩
        simpa [stepOf] using ⟨a, ha, rfl⟩
  | _ => exact ⟨[], by simp, by simp⟩

/-! ## What a stretch of handler code leaves behind -/

/-- An event that changes a count. -/
def scores (e : Event) : Bool :=
  match e with
  | .reset | .roundCompleted _ _ => true
  | _ => false

theorem scores_of_not_ofHandler {e : Event} (h : ofHandler e = false) : scores e = false := by
  cases e <;> first | rfl | simp [ofHandler] at h

/-- `w'` is the world after the code of `r` up to its next await. -/
structure Performed (w : World) (r : Resumption) (w' : World) : Prop where
  state : w'.session.state = r.session.state
  client1WinCount : w'.session.client1WinCount = r.session.client1WinCount
  client2WinCount : w'.session.client2WinCount = r.session.client2WinCount
  past : w'.past = w.past
  phase : ∃ events, w'.phase = w.phase ++ r.events ++ events ∧ ∀ e ∈ events, scores e = false
  handler : (r.next = .done ∧ w'.handler = .scheduled) ∨
    (∃ frame b, r.next.frame = some frame ∧ w'.handler = .suspended frame b) ∨
    (r.next ≠ .done ∧ w'.handler = .stopped)

theorem performed (w : World) (r : Resumption) : Performed w r (w.perform r) := by
  unfold World.perform
  split
  case h_1 hdone =>
      exact ⟨rfl, rfl, rfl, rfl, ⟨[], by simp, by simp⟩, .inl ⟨hdone, rfl⟩⟩
  case h_2 frame hsleep =>
      have hnext : r.next.frame = some frame := by rw [hsleep, Next.frame]
      exact ⟨rfl, rfl, rfl, rfl, ⟨[], by simp, by simp⟩, .inr (.inl ⟨frame, _, hnext, rfl⟩)⟩
  case h_3 task frame htask =>
      have hnext : r.next.frame = some frame := by rw [htask, Next.frame]
      cases task with
      | forAllClients ops =>
          simp only [World.startTask, World.startCallbacks]
          split
          · exact ⟨rfl, rfl, rfl, rfl, ⟨_, rfl, by simp [scores]⟩,
              .inr (.inl ⟨frame, _, hnext, rfl⟩)⟩
          · exact ⟨rfl, rfl, rfl, rfl, ⟨_, rfl, by simp [scores]⟩,
              .inr (.inl ⟨frame, _, hnext, rfl⟩)⟩
      | forwardClientBytes =>
          simp only [World.startTask]
          split
          · exact ⟨rfl, rfl, rfl, rfl, ⟨_, rfl, by simp [scores]⟩,
              .inr (.inl ⟨frame, _, hnext, rfl⟩)⟩
          · have hquiet :=
              quiet_endSession { w with session := r.session, phase := w.phase ++ r.events }
            obtain ⟨events, hphase, hevents⟩ := hquiet.phase
            exact ⟨hquiet.state, hquiet.client1WinCount, hquiet.client2WinCount, hquiet.past,
              ⟨events, hphase, fun e he => scores_of_not_ofHandler (hevents e he)⟩,
              .inr (.inr ⟨by simp [htask], rfl⟩)⟩

end GbPlay.Server.Tetris.Moves
