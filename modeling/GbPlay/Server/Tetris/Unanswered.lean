import GbPlay.Server.Tetris.Effects

/-!
# Exchanges that are not answered

An exchange that is not answered times out, its socket is destroyed, and the close event
makes it fail.  So an activity is never left waiting: its byte is still to be written, or
its timer runs, or the event that makes it fail is to come.
-/

namespace GbPlay.Server.Tetris.Unanswered

open GbPlay.Library.Runs
open GbPlay.Server.Client GbPlay.Server.Script GbPlay.Server.Tetris.Data
open GbPlay.Server.Tetris.Effects GbPlay.Server.Tetris.Handlers
open GbPlay.Server.Tetris.Model GbPlay.Server.Tetris.Moves GbPlay.Server.Tetris.Sync

variable {w w' : World} {l : Label}

/-! ## Sockets and timers -/

/-- An exchange whose socket has been closed was refused, and one whose timer has fired has
destroyed its socket. -/
structure Live (client : ClientId → GameBoyClient) (a : Activity) : Prop where
  closed : ∀ accepted e, a.call = .exchanging accepted e →
    (client a.client).socket = .closed → accepted = false
  fired : ∀ accepted e, a.call = .exchanging accepted e → e.timeout ≠ .armed →
    (client a.client).socket ≠ .connected

/-- Sockets have been destroyed, and none closed. -/
def Destroyed (client client' : ClientId → GameBoyClient) : Prop :=
  ∀ c, (client' c).socket = (client c).socket ∨ (client' c).socket = (client c).socket.destroy

variable {client client' : ClientId → GameBoyClient} {a : Activity} {c : ClientId}
  {pre post : List Activity}

@[simp] theorem destroy_eq_closed (s : SocketState) : s.destroy = .closed ↔ s = .closed := by
  cases s <;> simp [SocketState.destroy]

theorem Destroyed.refl (client : ClientId → GameBoyClient) : Destroyed client client :=
  fun _ => .inl rfl

theorem destroyed_disconnectAll (client : ClientId → GameBoyClient) (cs : List ClientId) :
    Destroyed client (disconnectAll client cs) := by
  intro c
  unfold disconnectAll
  split
  · exact .inr rfl
  · exact .inl rfl

theorem destroyed_endSession (w : World) : Destroyed w.client w.endSession.client := by
  unfold World.endSession
  split
  · exact .refl _
  · exact destroyed_disconnectAll _ _

theorem destroyed_perform (w : World) (r : Resumption) :
    Destroyed w.client (w.perform r).client := by
  unfold World.perform
  split
  case h_1 | h_2 => exact .refl _
  case h_3 task frame _ =>
      cases task with
      | forAllClients ops =>
          simp only [World.startTask, World.startCallbacks]
          split <;> exact .refl _
      | forwardClientBytes =>
          simp only [World.startTask]
          split
          · exact .refl _
          · exact destroyed_endSession { w with session := r.session, phase := w.phase ++ r.events }

theorem Destroyed.closed (h : Destroyed client client') (c : ClientId) :
    (client' c).socket = .closed ↔ (client c).socket = .closed := by
  rcases h c with h | h
  · rw [h]
  · rw [h, destroy_eq_closed]

theorem Destroyed.connected (h : Destroyed client client') (hc : (client' c).socket = .connected) :
    (client c).socket = .connected := by
  rcases h c with h | h
  · rwa [h] at hc
  · rw [h] at hc
    exact absurd hc (SocketState.destroy_ne_connected _)

theorem Live.destroyed (h : Live client a) (hclient : Destroyed client client') :
    Live client' a where
  closed accepted e hcall hclosed := h.closed accepted e hcall ((hclient.closed _).mp hclosed)
  fired accepted e hcall hfired hconnected :=
    h.fired accepted e hcall hfired (hclient.connected hconnected)

theorem live_delaying {b : Byte} (hcall : a.call = .delaying b) : Live client a := by
  constructor <;> intro accepted e he <;> rw [hcall] at he <;> cases he

theorem live_of_ne (h : Live w.client a) (hne : a.client ≠ c) (s : SocketState) :
    Live (setSocket w.client c s) a := by
  have hsame : (setSocket w.client c s a.client).socket = (w.client a.client).socket := by
    simp [setSocket, hne]
  constructor
  · intro accepted e hcall
    rw [hsame]
    exact h.closed accepted e hcall
  · intro accepted e hcall hfired
    rw [hsame]
    exact h.fired accepted e hcall hfired

/-! ## What a step does to the exchanges -/

/-- The steps of an exchange that is not answered. -/
inductive Exchanges (w : World) : Label → World → Prop
  | write {i : Nat} {accepted : Bool} {pre post : List Activity} {a : Activity} {b : Byte}
      {phase : List Event} : w.running = pre ++ a :: post → a.call = .delaying b →
      (accepted = true → (w.client a.client).socket = .connected) →
      Exchanges w (.write i accepted) { w with
        running := pre ++ { a with call := .exchanging accepted .start } :: post, phase }
  | written {i : Nat} {pre post : List Activity} {a : Activity} {e : Exchange} :
      w.running = pre ++ a :: post → a.call = .exchanging true e → e.sentByte = false →
      Exchanges w (.written i) { w with
        running := pre ++ { a with call := .exchanging true (e.onWrite false) } :: post }
  | writeError {i : Nat} {pre post : List Activity} {a : Activity} {accepted : Bool}
      {e : Exchange} : w.running = pre ++ a :: post → a.call = .exchanging accepted e →
      Exchanges w (.writeError i) (World.onRejected { w with
        running := pre ++ post, client := disconnectAll w.client [a.client] } a)
  | timeout {i : Nat} {pre post : List Activity} {a : Activity} {accepted : Bool}
      {e : Exchange} : w.running = pre ++ a :: post → a.call = .exchanging accepted e →
      w.running[i]? = some a →
      Exchanges w (.timeout i) { w with
        client := Function.update w.client a.client (onTimeout (w.client a.client) e).1
        running := pre ++
          { a with call := .exchanging accepted (onTimeout (w.client a.client) e).2 } :: post }

theorem exchanges_of_step (h : step w l = some w')
    (hl : l matches .write _ _ | .written _ | .writeError _ | .timeout _) :
    Exchanges w l w' := by
  cases l with
  | write i accepted =>
      simp only [step] at h
      split at h
      case h_2 => cases h
      case h_1 a hget =>
          obtain ⟨pre, post, hsplit, hset, _⟩ := split_of_getElem? hget
          split at h
          case h_2 => cases h
          case h_1 b hcall =>
              rw [hset] at h
              split at h
              case isTrue haccepted =>
                  simp only [Option.ite_none_right_eq_some, Option.some.injEq] at h
                  obtain ⟨hconnected, rfl⟩ := h
                  exact .write hsplit hcall fun _ => hconnected
              case isFalse hrefused =>
                  cases h
                  exact .write hsplit hcall fun haccepted => absurd haccepted hrefused
  | written i =>
      simp only [step] at h
      split at h
      case h_2 => cases h
      case h_1 a hget =>
          obtain ⟨pre, post, hsplit, hset, _⟩ := split_of_getElem? hget
          split at h
          case h_2 => cases h
          case h_1 e hcall =>
              simp only [Option.ite_none_left_eq_some, Option.some.injEq] at h
              obtain ⟨hsent, rfl⟩ := h
              rw [hset]
              exact .written hsplit hcall (by simpa using hsent)
  | writeError i =>
      simp only [step] at h
      split at h
      case h_2 => cases h
      case h_1 a hget =>
          obtain ⟨pre, post, hsplit, _, herase⟩ := split_of_getElem? hget
          split at h
          case h_2 => cases h
          case h_1 accepted e hcall =>
              simp only [Option.ite_none_left_eq_some, Option.some.injEq] at h
              obtain ⟨_, rfl⟩ := h
              rw [herase]
              exact .writeError hsplit hcall
  | timeout i =>
      simp only [step] at h
      split at h
      case h_2 => cases h
      case h_1 a hget =>
          obtain ⟨pre, post, hsplit, hset, _⟩ := split_of_getElem? hget
          split at h
          case h_2 => cases h
          case h_1 accepted e hcall =>
              obtain rfl := Option.some.inj h
              rw [hset]
              exact .timeout hsplit hcall hget
  | _ => cases hl

/-- A close event ends the session and takes the exchange of its client with it. -/
structure Closes (w : World) (c : ClientId) (w' : World) : Prop where
  opened : (w.client c).socket ≠ .closed
  mem : c ∈ w.joined
  joined : w'.joined = w.joined
  ended : w'.session.ended = true
  client : Destroyed (setSocket w.client c .closed) w'.client
  running : w'.running = w.running.filter (!·.losesSocket c)
  handler : w'.handler = w.handler ∨ ∃ n, w'.handler = w.handler.reject n

theorem ended_endSession (w : World) : w.endSession.session.ended = true := by
  unfold World.endSession
  split
  · assumption
  · simp

theorem handler_endSession (w : World) : w.endSession.handler = w.handler := by
  unfold World.endSession
  split <;> rfl

theorem running_endSession (w : World) : w.endSession.running = w.running := by
  unfold World.endSession
  split <;> rfl

theorem closes_of_step (hw : Exclusive w) (h : step w (.close c) = some w') : Closes w c w' := by
  simp only [step, Option.ite_none_right_eq_some, Option.some.injEq] at h
  obtain ⟨⟨hopen, hmem⟩, rfl⟩ := h
  have hone : (w.running.filter (·.losesSocket c)).length ≤ 1 := by
    refine hw.length_filter_le_one c ?_
    exact fun a _ hloses => (exchanging_of_losesSocket hloses).1
  rw [endSession_running { w with client := setSocket w.client c .closed }]
  generalize hu : { w with client := setSocket w.client c .closed }.endSession = u
  have hclient : Destroyed (setSocket w.client c .closed) u.client := by
    rw [← hu]
    exact destroyed_endSession { w with client := setSocket w.client c .closed }
  have hended : u.session.ended = true := by rw [← hu, ended_endSession]
  have hjoined : u.joined = w.joined := by rw [← hu, joined_endSession]
  have hhandler : u.handler = w.handler := by rw [← hu, handler_endSession]
  rcases filter_eq_nil_or_split hone with ⟨hnil, _⟩ | ⟨pre, a, post, _, _, heq, _⟩
  · rw [hnil, List.foldl_nil]
    exact ⟨hopen, hmem, hjoined, hended, hclient, rfl, .inl hhandler⟩
  · rw [heq, List.foldl_cons, List.foldl_nil]
    refine ⟨hopen, hmem, hjoined, hended, hclient, rfl, .inr ⟨a.step, ?_⟩⟩
    rw [World.onRejected, hhandler]

/-! ## What is always so -/

/-- The exchanges of a session; its handler has failed only if it has ended. -/
structure Tended (w : World) : Prop where
  live : ∀ a ∈ w.running, Live w.client a
  stopped : w.handler = .stopped → w.session.ended = true

@[simp] theorem complete_eq_stopped {h : Handler} {n : Nat} :
    h.complete n c = .stopped ↔ h = .stopped := by
  cases h with
  | suspended frame b =>
      simp only [Handler.complete]
      split <;> simp
  | _ => simp [Handler.complete]

@[simp] theorem transfer_eq_stopped {h : Handler} {n : Nat} {b₁ b₂ : Byte} {now : Int} :
    h.transfer n b₁ b₂ now = .stopped ↔ h = .stopped := by
  cases h with
  | suspended frame b =>
      simp only [Handler.transfer]
      split <;> simp
  | _ => simp [Handler.transfer]

@[simp] theorem reject_eq_stopped {h : Handler} {n : Nat} :
    h.reject n = .stopped ↔ h = .stopped := by
  cases h with
  | suspended frame b =>
      simp only [Handler.reject]
      split <;> simp
  | _ => simp [Handler.reject]

/-- What holds of the activities around `a`. -/
theorem forall_around {P Q : Activity → Prop} (h : ∀ x ∈ pre ++ a :: post, P x)
    (hrest : ∀ x, P x → Q x) : ∀ x ∈ pre ++ post, Q x := by
  intro x hx
  rw [List.mem_append] at hx
  rcases hx with hx | hx
  · exact hrest x (h x (List.mem_append_left _ hx))
  · exact hrest x (h x (List.mem_append_right _ (List.mem_cons_of_mem _ hx)))

/-- And of what takes its place. -/
theorem forall_middle {P Q : Activity → Prop} {a' : Activity} (h : ∀ x ∈ pre ++ a :: post, P x)
    (hrest : ∀ x, P x → Q x) (ha : Q a') : ∀ x ∈ pre ++ a' :: post, Q x := by
  have haround := forall_around h hrest
  intro x hx
  rw [List.mem_append, List.mem_cons] at hx
  rcases hx with hx | rfl | hx
  · exact haround x (List.mem_append_left _ hx)
  · exact ha
  · exact haround x (List.mem_append_right _ hx)

theorem destroyed_timeout (w : World) (c : ClientId) (e : Exchange) :
    Destroyed w.client (Function.update w.client c (onTimeout (w.client c) e).1) := by
  intro d
  by_cases hd : d = c
  · subst hd
    rw [Function.update_self]
    unfold onTimeout
    split
    · exact .inr rfl
    · exact .inl rfl
  · rw [Function.update_of_ne hd]
    exact .inl rfl

theorem live_timeout (h : Live w.client a) {accepted : Bool} {e : Exchange}
    (hcall : a.call = .exchanging accepted e) :
    Live (Function.update w.client a.client (onTimeout (w.client a.client) e).1)
      { a with call := .exchanging accepted (onTimeout (w.client a.client) e).2 } := by
  have hdestroyed := destroyed_timeout w a.client e
  constructor
  · intro accepted' e' hcall' hclosed
    obtain ⟨rfl, rfl⟩ := Call.exchanging.inj hcall'
    exact h.closed accepted e hcall ((hdestroyed.closed _).mp hclosed)
  · intro accepted' e' hcall' hfired hconnected
    obtain ⟨rfl, rfl⟩ := Call.exchanging.inj hcall'
    change (Function.update w.client a.client (onTimeout (w.client a.client) e).1
      a.client).socket = .connected at hconnected
    by_cases harmed : e.timeout = .armed
    · rw [Function.update_self, onTimeout, if_pos harmed] at hconnected
      exact SocketState.destroy_ne_connected _ hconnected
    · exact h.fired accepted e hcall harmed (hdestroyed.connected hconnected)

theorem tended_exchanges (h : Tended w) (hexchanges : Exchanges w l w') : Tended w' := by
  have hlive := h.live
  cases hexchanges with
  | @write i accepted pre post a b phase hsplit hcall hconnected =>
      rw [hsplit] at hlive
      refine ⟨forall_middle hlive (fun _ hx => hx) ?_, h.stopped⟩
      constructor
      · intro accepted' e hcall' hclosed
        obtain ⟨rfl, rfl⟩ := Call.exchanging.inj hcall'
        by_contra haccepted
        have hopen := hconnected (by simpa using haccepted)
        rw [show (w.client a.client).socket = .closed from hclosed] at hopen
        cases hopen
      · intro accepted' e hcall' hfired
        obtain ⟨rfl, rfl⟩ := Call.exchanging.inj hcall'
        exact absurd rfl hfired
  | @written i pre post a e hsplit hcall hsent =>
      have ha : Live w.client a := hlive a (by rw [hsplit]; simp)
      rw [hsplit] at hlive
      refine ⟨forall_middle hlive (fun _ hx => hx) ?_, h.stopped⟩
      constructor
      · intro accepted' e' hcall' hclosed
        obtain ⟨rfl, rfl⟩ := Call.exchanging.inj hcall'
        exact ha.closed true e hcall hclosed
      · intro accepted' e' hcall' hfired
        obtain ⟨rfl, rfl⟩ := Call.exchanging.inj hcall'
        exact ha.fired true e hcall hfired
  | @writeError i pre post a accepted e hsplit hcall =>
      have hdestroyed := destroyed_disconnectAll w.client [a.client]
      rw [hsplit] at hlive
      refine ⟨forall_around hlive fun _ hx => hx.destroyed hdestroyed, ?_⟩
      intro hstopped
      exact h.stopped (reject_eq_stopped.mp hstopped)
  | @timeout i pre post a accepted e hsplit hcall hget =>
      have hdestroyed := destroyed_timeout w a.client e
      have ha : Live w.client a := hlive a (by rw [hsplit]; simp)
      rw [hsplit] at hlive
      exact ⟨forall_middle hlive (fun _ hx => hx.destroyed hdestroyed) (live_timeout ha hcall),
        h.stopped⟩

theorem tended_closes (hsynced : Synced w) (h : Tended w) (hcloses : Closes w c w') :
    Tended w' where
  live a ha := by
    rw [hcloses.running, List.mem_filter] at ha
    obtain ⟨hmem, hkept⟩ := ha
    cases hcall : a.call with
    | delaying b => exact live_delaying hcall
    | exchanging accepted e =>
        have hne : a.client ≠ c := by
          intro heq
          have hopen : Sound a.call := hsynced.sound a hmem
          rw [hcall] at hopen
          simp [Activity.losesSocket, hcall, heq, hopen.1.onClose_outcome] at hkept
        exact (live_of_ne (h.live a hmem) hne .closed).destroyed hcloses.client
  stopped _ := hcloses.ended

theorem tended_data {rx : Byte} {now : Int} (hsynced : Synced w) (h : Tended w)
    (hstep : step w (.data c rx now) = some w') : Tended w' := by
  simp only [step, Option.ite_none_right_eq_some, Option.some.injEq] at hstep
  obtain ⟨_, rfl⟩ := hstep
  have hone : (w.running.filter (·.hears w.client c rx)).length ≤ 1 := by
    refine hsynced.length_filter_le_one c ?_
    exact fun a ha hears => (accepted_of_hears (hsynced.sound a ha) hears).1
  rcases filter_eq_nil_or_split hone with ⟨hnil, hself⟩ | ⟨pre, a, post, hsplit, _, heq, hrest⟩
  · rw [hnil, hself]
    exact h
  rw [heq, hrest, List.foldl_cons, List.foldl_nil]
  have hreceived : Destroyed w.client (received w.client a.client rx) := by
    intro d
    by_cases hd : d = a.client
    · subst hd
      exact .inl (by simp [received])
    · exact .inl (by simp [received, hd])
  have hlive : ∀ x ∈ pre ++ post, Live (received w.client a.client rx) x := by
    have hbefore := h.live
    rw [hsplit] at hbefore
    exact forall_around hbefore fun _ hx => hx.destroyed hreceived
  obtain ⟨ops, b, _, _, heq⟩ | ⟨self, b₁, _, _, heq⟩ | ⟨_, heq⟩ :=
    onResolved_cases { w with running := pre ++ post } a rx now
  · rw [heq]
    refine ⟨?_, h.stopped⟩
    rw [List.forall_mem_append, List.forall_mem_singleton]
    exact ⟨hlive, live_delaying rfl⟩
  · rw [heq]
    refine ⟨?_, ?_⟩
    · rw [List.forall_mem_append, List.forall_mem_singleton]
      exact ⟨hlive, live_delaying rfl⟩
    · intro hstopped
      exact h.stopped (transfer_eq_stopped.mp (complete_eq_stopped.mp hstopped))
  · rw [heq]
    refine ⟨hlive, ?_⟩
    intro hstopped
    exact h.stopped (complete_eq_stopped.mp hstopped)

/-- A stretch of handler code begins no exchange before the send delay, and fails only by ending
the session. -/
theorem tended_perform {r : Resumption} (hidle : w.running = []) : Tended (w.perform r) := by
  unfold World.perform
  split
  case h_1 | h_2 => exact ⟨by simp [hidle], fun hstopped => by cases hstopped⟩
  case h_3 task frame _ =>
      cases task with
      | forAllClients ops =>
          simp only [World.startTask, World.startCallbacks, hidle, List.nil_append]
          split
          · refine ⟨fun a ha => ?_, fun hstopped => by cases hstopped⟩
            obtain ⟨c, _, rfl⟩ := List.mem_map.mp ha
            exact live_delaying rfl
          · exact ⟨by simp, fun hstopped => by cases hstopped⟩
      | forwardClientBytes =>
          simp only [World.startTask]
          split
          · simp only [World.startForwarding, hidle, List.nil_append]
            refine ⟨?_, fun hstopped => by cases hstopped⟩
            rw [List.forall_mem_singleton]
            exact live_delaying rfl
          · refine ⟨?_, fun _ => ended_endSession _⟩
            simp [World.catchError, running_endSession, hidle]

theorem tended_catchError (h : Tended w) : Tended w.catchError where
  live a ha := by
    have hmem : a ∈ w.running := by rwa [World.catchError, running_endSession] at ha
    exact (h.live a hmem).destroyed (destroyed_endSession w)
  stopped _ := ended_endSession w

theorem tended_step (hsynced : Synced w) (h : Tended w) (hstep : step w l = some w') :
    Tended w' := by
  cases l with
  | join c =>
      simp only [step, Option.ite_none_right_eq_some, Option.some.injEq] at hstep
      obtain ⟨_, rfl⟩ := hstep
      exact ⟨h.live, h.stopped⟩
  | tick draws now₀ now₁ =>
      obtain ⟨hhandler, rfl⟩ := step_tick hstep
      exact tended_perform (continues_start hsynced draws now₀ now₁ hhandler).idle
  | resume now =>
      simp only [step] at hstep
      split at hstep
      case h_2 => cases hstep
      case h_1 frame b hhandler =>
          simp only [Option.ite_none_right_eq_some, Option.some.injEq] at hstep
          obtain ⟨⟨hpending, hrejected⟩, rfl⟩ := hstep
          exact tended_perform (continues_resume hsynced now hhandler hpending hrejected).idle
  | reject =>
      simp only [step] at hstep
      split at hstep
      case h_2 => cases hstep
      case h_1 =>
          simp only [Option.ite_none_right_eq_some, Option.some.injEq] at hstep
          obtain ⟨_, rfl⟩ := hstep
          exact tended_catchError h
  | data c rx now => exact tended_data hsynced h hstep
  | close c => exact tended_closes hsynced h (closes_of_step hsynced.toExclusive hstep)
  | write i accepted | written i | writeError i | timeout i =>
      exact tended_exchanges h (exchanges_of_step hstep rfl)

theorem tended_reachable (h : Reachable (Fires step) init w) : Tended w := by
  obtain ⟨ls, hrun⟩ := h
  induction hrun with
  | nil => exact ⟨by simp [init], fun hstopped => by cases hstopped⟩
  | snoc hrun hstep ih => exact tended_step (synced_reachable ⟨_, hrun⟩) ih hstep

/-! ## The sockets of an ended session -/

/-- `end` disconnects the clients that have joined. -/
theorem disconnected_endSession (hsynced : Synced w)
    (h : w.session.ended = true → ∀ c ∈ w.joined, (w.client c).socket ≠ .connected) :
    ∀ c ∈ w.joined, (w.endSession.client c).socket ≠ .connected := by
  intro c hc
  unfold World.endSession
  split
  case isTrue hended => exact h hended c hc
  case isFalse hlive =>
      have hmem : c ∈ w.session.disconnectedByEnd := by
        rw [GameSession.disconnectedByEnd, hsynced.members]
        simpa [hlive] using hc
      show (disconnectAll w.client w.session.disconnectedByEnd c).socket ≠ .connected
      rw [disconnectAll, if_pos hmem]
      exact SocketState.destroy_ne_connected _

theorem disconnected_effect (hsynced : Synced w) (heffect : Effect w w')
    (h : w.session.ended = true → ∀ c ∈ w.joined, (w.client c).socket ≠ .connected) :
    w'.session.ended = true → ∀ c ∈ w'.joined, (w'.client c).socket ≠ .connected := by
  intro hended c hc
  rw [heffect.joined] at hc
  cases heffect with
  | none hagrees =>
      rw [hagrees.session] at hended
      rw [hagrees.socket c]
      exact h hended c hc
  | disconnected d _ hagrees =>
      rw [hagrees.session] at hended
      rw [hagrees.socket c]
      exact fun hconnected =>
        h hended c hc ((destroyed_disconnectAll w.client [d]).connected hconnected)
  | ended hagrees =>
      rw [hagrees.socket c]
      exact disconnected_endSession hsynced h c hc
  | closed d _ _ hagrees =>
      rw [hagrees.socket c]
      refine disconnected_endSession (w := { w with client := setSocket w.client d .closed })
        { hsynced with } (fun hended' e he => ?_) c hc
      by_cases heq : e = d
      · subst heq
        simp [setSocket]
      · simpa [setSocket, heq] using h hended' e he

theorem disconnected_reachable (h : Reachable (Fires step) init w) :
    w.session.ended = true → ∀ c ∈ w.joined, (w.client c).socket ≠ .connected := by
  obtain ⟨ls, hrun⟩ := h
  induction hrun with
  | nil => simp [init]
  | @snoc ls l t u hrun hstep ih =>
      by_cases hjoin : ∃ d, l = .join d
      · obtain ⟨d, rfl⟩ := hjoin
        simp only [Fires, step, Option.ite_none_right_eq_some, Option.some.injEq] at hstep
        obtain ⟨⟨hjoinable, _⟩, rfl⟩ := hstep
        intro hended
        rw [GameSession.isJoinable_iff] at hjoinable
        exact absurd hended (by simp [GameSession.addClient, hjoinable.1])
      · exact disconnected_effect (synced_reachable ⟨_, hrun⟩)
          (effect_of_step hstep (fun d hd => hjoin ⟨d, hd⟩) (served_reachable ⟨_, hrun⟩)) ih

end GbPlay.Server.Tetris.Unanswered
