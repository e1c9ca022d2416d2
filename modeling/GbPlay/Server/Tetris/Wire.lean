import GbPlay.Server.Tetris.Initialization

/-!
# What passes between a session and its clients

A step of a session hands over one byte to a client, or takes the answer of one, or
does neither: then no byte passes, and a client whose connection is still up is
waiting for an answer just as before.
-/

namespace GbPlay.Server.Tetris.Wire

open GbPlay.Library.Runs
open GbPlay.Server.Client GbPlay.Server.Script GbPlay.Server.Tetris.Data
open GbPlay.Server.Tetris.Handlers GbPlay.Server.Tetris.Model GbPlay.Server.Tetris.Moves
open GbPlay.Server.Tetris.Sync GbPlay.Server.Tetris.Initialization

/-! ## Answers that are due -/

/-- The byte of the activity has been handed over to client `c`. -/
def Awaits (a : Activity) (c : ClientId) : Prop :=
  a.client = c ∧ ∃ e, a.call = .exchanging true e

/-- The answer of client `c` is due. -/
def Awaited (running : List Activity) (c : ClientId) : Prop := ∃ a ∈ running, Awaits a c

section Awaited

variable {pre post : List Activity} {a a' : Activity} {c : ClientId}

theorem awaited_middle :
    Awaited (pre ++ a :: post) c ↔ Awaits a c ∨ Awaited (pre ++ post) c := by
  simp only [Awaited, List.mem_append, List.mem_cons]
  grind

theorem awaited_concat : Awaited (pre ++ [a]) c ↔ Awaits a c ∨ Awaited pre c := by
  rw [awaited_middle, List.append_nil]

theorem awaited_congr (h : Awaits a' c ↔ Awaits a c) :
    Awaited (pre ++ a' :: post) c ↔ Awaited (pre ++ a :: post) c := by
  rw [awaited_middle, awaited_middle, h]

end Awaited

/-! ## Steps in which no byte passes -/

/-- No connection has been made, and no byte received. -/
def Quenched (client client' : ClientId → GameBoyClient) : Prop :=
  ∀ c, (client' c).lastReceivedByte = (client c).lastReceivedByte ∧
    ((client' c).socket = .connected → (client c).socket = .connected)

theorem Quenched.refl (client : ClientId → GameBoyClient) : Quenched client client :=
  fun _ => ⟨rfl, id⟩

theorem quenched_disconnectAll (client : ClientId → GameBoyClient) (cs : List ClientId) :
    Quenched client (disconnectAll client cs) := by
  intro c
  unfold disconnectAll
  split
  · exact ⟨rfl, fun h => absurd h (SocketState.destroy_ne_connected _)⟩
  · exact ⟨rfl, id⟩

theorem quenched_setSocket (client : ClientId → GameBoyClient) (c : ClientId) :
    Quenched client (setSocket client c .closed) := by
  intro d
  by_cases h : d = c
  · subst h
    simp [setSocket]
  · simp [setSocket, h]

theorem quenched_update {client : ClientId → GameBoyClient} {c : ClientId} {k : GameBoyClient}
    (hbyte : k.lastReceivedByte = (client c).lastReceivedByte)
    (hsocket : k.socket = .connected → (client c).socket = .connected) :
    Quenched client (Function.update client c k) := by
  intro d
  by_cases h : d = c
  · subst h
    simpa using ⟨hbyte, hsocket⟩
  · simp [h]

/-- An event in which a byte passes. -/
def passes (e : Event) : Bool :=
  match e with
  | .sent _ _ _ | .answered _ _ _ => true
  | _ => false

structure Aside (w w' : World) : Prop where
  client : Quenched w.client w'.client
  log : ∃ events, w'.log = w.log ++ events ∧ ∀ e ∈ events, passes e = false
  awaited : ∀ c, (w'.client c).socket = .connected →
    (Awaited w'.running c ↔ Awaited w.running c)
  /-- An answer that is no longer due has been given up. -/
  given : ∀ c, Awaited w.running c → Awaited w'.running c ∨ ∃ m, .failed m c ∈ w'.log

variable {w w' : World} {events : List Event} {c : ClientId}

theorem sentTo_of_not_passes (h : ∀ e ∈ events, passes e = false) : sentTo c events = [] := by
  rw [sentTo, List.filterMap_eq_nil_iff]
  intro e he
  have hpasses := h e he
  cases e <;> first | rfl | cases hpasses

theorem answeredBy_of_not_passes (h : ∀ e ∈ events, passes e = false) :
    answeredBy c events = [] := by
  rw [answeredBy, List.filterMap_eq_nil_iff]
  intro e he
  have hpasses := h e he
  cases e <;> first | rfl | cases hpasses

theorem passes_of_silent {e : Event} (h : e.silent = true) : passes e = false := by
  cases e <;> first | rfl | simp [Event.silent] at h

theorem Aside.sentTo (h : Aside w w') (c : ClientId) :
    sentTo c w'.log = Initialization.sentTo c w.log := by
  obtain ⟨events, hlog, hevents⟩ := h.log
  rw [hlog, sentTo_append, sentTo_of_not_passes hevents, List.append_nil]

theorem Aside.answeredBy (h : Aside w w') (c : ClientId) :
    answeredBy c w'.log = Initialization.answeredBy c w.log := by
  obtain ⟨events, hlog, hevents⟩ := h.log
  rw [hlog, answeredBy_append, answeredBy_of_not_passes hevents, List.append_nil]

theorem Aside.trans {w'' : World} (h : Aside w w') (h' : Aside w' w'') : Aside w w'' := by
  obtain ⟨events, hlog, hevents⟩ := h.log
  obtain ⟨events', hlog', hevents'⟩ := h'.log
  constructor
  · intro c
    exact ⟨(h'.client c).1.trans (h.client c).1, (h.client c).2 ∘ (h'.client c).2⟩
  · refine ⟨events ++ events', by rw [hlog', hlog, List.append_assoc], fun e he => ?_⟩
    rcases List.mem_append.mp he with he | he
    · exact hevents e he
    · exact hevents' e he
  · intro c hc
    exact (h'.awaited c hc).trans (h.awaited c ((h'.client c).2 hc))
  · intro c hc
    rcases h.given c hc with hc | ⟨m, hm⟩
    · exact h'.given c hc
    · refine .inr ⟨m, ?_⟩
      rw [hlog']
      exact List.mem_append_left _ hm

/-- The activities wait for the same answers. -/
theorem Aside.of_awaited (hclient : Quenched w.client w'.client)
    (hlog : w'.log = w.log ++ events) (hevents : ∀ e ∈ events, passes e = false)
    (hrunning : ∀ c, Awaited w'.running c ↔ Awaited w.running c) : Aside w w' where
  client := hclient
  log := ⟨events, hlog, hevents⟩
  awaited c _ := hrunning c
  given c hc := .inl ((hrunning c).mpr hc)

theorem aside_endSession (w : World) : Aside w w.endSession := by
  unfold World.endSession
  split
  · exact .of_awaited (.refl _) (List.append_nil _).symm (by simp) fun _ => .rfl
  · have hevents : ∀ e ∈ [Event.ended], passes e = false := by simp [passes]
    exact .of_awaited (quenched_disconnectAll _ _) (by simp [World.log]) hevents fun _ => .rfl

theorem not_awaited_nil : ¬ Awaited [] c := by simp [Awaited]

/-- Before and after a stretch of handler code, no answer is due. -/
theorem aside_perform {r : Resumption} (hidle : w.running = [])
    (hsilent : ∀ e ∈ r.events, e.silent = true) : Aside w (w.perform r) := by
  have hevents : ∀ e ∈ r.events, passes e = false := fun e he => passes_of_silent (hsilent e he)
  have hmore (more : List Event) (h : ∀ e ∈ more, passes e = false) :
      ∀ e ∈ r.events ++ more, passes e = false := by
    intro e he
    rcases List.mem_append.mp he with he | he
    · exact hevents e he
    · exact h e he
  have hnone (running : List Activity) (h : ∀ a ∈ running, ∃ b, a.call = .delaying b)
      (c : ClientId) : Awaited running c ↔ Awaited w.running c := by
    rw [hidle, iff_false_intro not_awaited_nil, iff_false]
    rintro ⟨a, ha, _, e, he⟩
    obtain ⟨b, hb⟩ := h a ha
    rw [hb] at he
    cases he
  unfold World.perform
  split
  case h_1 =>
      exact .of_awaited (.refl _) (by simp [World.log]) hevents fun _ => .rfl
  case h_2 =>
      exact .of_awaited (.refl _) (by simp [World.log]) hevents fun _ => .rfl
  case h_3 task frame htask =>
      cases task with
      | forAllClients ops =>
          simp only [World.startTask, World.startCallbacks, hidle, List.nil_append]
          split
          · refine .of_awaited (.refl _) (by simp [World.log]) (hmore [.begun w.steps
              r.session.clients (.forAllClients ops)] (by simp [passes])) (hnone _ ?_)
            intro a ha
            obtain ⟨c, _, rfl⟩ := List.mem_map.mp ha
            exact ⟨_, rfl⟩
          · refine .of_awaited (.refl _) (by simp [World.log]) (hmore (.begun w.steps
              r.session.clients (.forAllClients ops) ::
                r.session.clients.map (.completed w.steps)) (by simp [passes])) (hnone _ ?_)
            simp
      | forwardClientBytes =>
          simp only [World.startTask]
          split
          · rename_i c₁ c₂ _
            simp only [World.startForwarding, hidle, List.nil_append]
            refine .of_awaited (.refl _) (by simp [World.log]) (hmore [.begun w.steps
              [c₁, c₂] .forwardClientBytes] (by simp [passes])) (hnone _ ?_)
            simp
          · have hpaused : Aside w { w with
                session := r.session, phase := w.phase ++ r.events } :=
              .of_awaited (.refl _) (by simp [World.log]) hevents fun _ => .rfl
            have hended := hpaused.trans (aside_endSession _)
            exact ⟨hended.client, hended.log, hended.awaited, hended.given⟩

theorem aside_handleState (h : Synced w) (hhandler : w.handler = .scheduled) (draws : Draws)
    (now₀ now₁ : Int) : Aside w (w.handleState draws now₀ now₁) := by
  have hcontinues := continues_start h draws now₀ now₁ hhandler
  have hstarted : Aside w { w with past := w.log, phase := [.handlerStarted w.session.state] } :=
    .of_awaited (.refl _) rfl (by simp [passes]) fun _ => .rfl
  exact hstarted.trans (aside_perform hcontinues.idle hcontinues.silent)

/-- The exchange of `a` is given up, and the connection of its client is gone. -/
theorem aside_rejected {pre post : List Activity} {a : Activity}
    (hsplit : w.running = pre ++ a :: post) (hgone : (w.client a.client).socket ≠ .connected) :
    Aside w ({ w with running := pre ++ post }.onRejected a) where
  client := .refl _
  log := ⟨[.failed a.step a.client], by simp [World.onRejected, World.log], by simp [passes]⟩
  awaited c hc := by
    have hother : ¬ Awaits a c := by
      rintro ⟨rfl, _⟩
      exact hgone hc
    rw [hsplit, awaited_middle, iff_false_intro hother, false_or]
    rfl
  given c hc := by
    rw [hsplit, awaited_middle] at hc
    rcases hc with ⟨rfl, _⟩ | hc
    · exact .inr ⟨a.step, by simp [World.onRejected, World.log]⟩
    · exact .inl hc

theorem aside_close (hw : Exclusive w) (h : step w (.close c) = some w') : Aside w w' := by
  simp only [step, Option.ite_none_right_eq_some, Option.some.injEq] at h
  obtain ⟨_, rfl⟩ := h
  have hclosed : Aside w { w with client := setSocket w.client c .closed } :=
    .of_awaited (quenched_setSocket _ _) (List.append_nil _).symm (by simp) fun _ => .rfl
  have hended := hclosed.trans (aside_endSession _)
  have hone : (w.running.filter (·.losesSocket c)).length ≤ 1 := by
    refine hw.length_filter_le_one c ?_
    exact fun a _ hloses => (exchanging_of_losesSocket hloses).1
  rcases filter_eq_nil_or_split hone with ⟨hnil, hself⟩ | ⟨pre, a, post, hsplit, ha, heq, hrest⟩
  · rw [hnil, hself]
    exact hended
  · rw [heq, hrest]
    have hclient := (exchanging_of_losesSocket ha).1
    have hgone : ({ w with client := setSocket w.client c .closed }.endSession.client
        a.client).socket ≠ .connected := by
      intro hconnected
      have hbefore := ((aside_endSession _).client a.client).2 hconnected
      simp [setSocket, hclient] at hbefore
    have hrunning : { w with client := setSocket w.client c .closed }.endSession.running =
        pre ++ a :: post := by
      rw [← hsplit]
      unfold World.endSession
      split <;> rfl
    have hrejected := aside_rejected hrunning hgone
    rw [← endSession_running] at hrejected
    exact hended.trans hrejected

theorem aside_writeError {i : Nat} (h : step w (.writeError i) = some w') : Aside w w' := by
  simp only [step] at h
  split at h
  case h_2 => cases h
  case h_1 a hget =>
      obtain ⟨pre, post, hsplit, _, herase⟩ := split_of_getElem? hget
      split at h
      case h_2 => cases h
      case h_1 accepted e hcall =>
          simp only [Option.ite_none_left_eq_some, Option.some.injEq] at h
          obtain ⟨_, rfl⟩ := h
          rw [herase]
          have hgone : (disconnectAll w.client [a.client] a.client).socket ≠ .connected := by
            simp [disconnectAll]
          have hdisconnected : Aside w { w with client := disconnectAll w.client [a.client] } :=
            .of_awaited (quenched_disconnectAll _ _) (List.append_nil _).symm (by simp)
              fun _ => .rfl
          exact hdisconnected.trans (aside_rejected
            (w := { w with client := disconnectAll w.client [a.client] }) hsplit hgone)

/-- The call of an activity changes, and its byte is not handed over by that. -/
theorem aside_call {pre post : List Activity} {a : Activity} {call : Call}
    {client : ClientId → GameBoyClient} (hsplit : w.running = pre ++ a :: post)
    (hcall : ∀ c, Awaits { a with call := call } c ↔ Awaits a c)
    (hclient : Quenched w.client client) :
    Aside w { w with client := client, running := pre ++ { a with call := call } :: post } :=
  .of_awaited hclient (List.append_nil _).symm (by simp) fun c => by
    rw [hsplit]
    exact awaited_congr (hcall c)

theorem awaits_exchanging {a : Activity} {accepted : Bool} {e e' : Exchange}
    (h : a.call = .exchanging accepted e) (c : ClientId) :
    Awaits { a with call := .exchanging accepted e' } c ↔ Awaits a c := by
  simp [Awaits, h]

theorem aside_of_step (hsynced : Synced w) {l : Label} (h : step w l = some w')
    (hwrite : ∀ i, l ≠ .write i true) (hdata : ∀ c rx now, l ≠ .data c rx now) :
    Aside w w' := by
  cases l with
  | join c =>
      simp only [step, Option.ite_none_right_eq_some, Option.some.injEq] at h
      obtain ⟨_, rfl⟩ := h
      exact .of_awaited (.refl _) (List.append_nil _).symm (by simp) fun _ => .rfl
  | tick draws now₀ now₁ =>
      obtain ⟨hhandler, rfl⟩ := step_tick h
      exact aside_handleState hsynced hhandler draws now₀ now₁
  | resume now =>
      simp only [step] at h
      split at h
      case h_2 => cases h
      case h_1 frame b hhandler =>
          simp only [Option.ite_none_right_eq_some, Option.some.injEq] at h
          obtain ⟨⟨hpending, hrejected⟩, rfl⟩ := h
          have hcontinues := continues_resume hsynced now hhandler hpending hrejected
          exact aside_perform hcontinues.idle hcontinues.silent
  | reject =>
      simp only [step] at h
      split at h
      case h_2 => cases h
      case h_1 frame b hhandler =>
          simp only [Option.ite_none_right_eq_some, Option.some.injEq] at h
          obtain ⟨_, rfl⟩ := h
          have hended := aside_endSession w
          exact ⟨hended.client, hended.log, hended.awaited, hended.given⟩
  | write i accepted =>
      cases accepted with
      | true => exact absurd rfl (hwrite i)
      | false =>
          simp only [step] at h
          split at h
          case h_2 => cases h
          case h_1 a hget =>
              obtain ⟨pre, post, hsplit, hset, _⟩ := split_of_getElem? hget
              split at h
              case h_2 => cases h
              case h_1 b hcall =>
                  simp only [hset, Bool.false_eq_true, if_false, Option.some.injEq] at h
                  subst h
                  refine aside_call hsplit (fun c => ?_) (.refl _)
                  simp [Awaits, hcall]
  | written i =>
      simp only [step] at h
      split at h
      case h_2 => cases h
      case h_1 a hget =>
          obtain ⟨pre, post, hsplit, hset, _⟩ := split_of_getElem? hget
          split at h
          case h_2 => cases h
          case h_1 e hcall =>
              simp only [hset, Option.ite_none_left_eq_some, Option.some.injEq] at h
              obtain ⟨_, rfl⟩ := h
              exact aside_call hsplit (awaits_exchanging hcall) (.refl _)
  | writeError i => exact aside_writeError h
  | timeout i =>
      simp only [step] at h
      split at h
      case h_2 => cases h
      case h_1 a hget =>
          obtain ⟨pre, post, hsplit, hset, _⟩ := split_of_getElem? hget
          split at h
          case h_2 => cases h
          case h_1 accepted e hcall =>
              obtain rfl := Option.some.inj h
              rw [hset]
              refine aside_call hsplit (awaits_exchanging hcall) (quenched_update ?_ ?_)
              · unfold onTimeout
                split <;> rfl
              · unfold onTimeout
                split
                · exact fun h => absurd h (SocketState.destroy_ne_connected _)
                · exact id
  | data c rx now => exact absurd rfl (hdata c rx now)
  | close c => exact aside_close hsynced.toExclusive h

/-! ## Steps in which a byte passes -/

/-- The activity at index `i` will hand over `b` to client `c`. -/
def handsOver (w : World) (i : Nat) : Option (ClientId × Byte) :=
  match w.running[i]? with
  | some a =>
      match a.call with
      | .delaying b => some (a.client, b)
      | _ => none
  | none => none

/-- The callbacks of all writes to client `c` have run. -/
def callbacksRan (w : World) (c : ClientId) : Bool :=
  w.running.all fun a =>
    match a.call with
    | .exchanging true e => a.client ≠ c || e.sentByte
    | _ => true

structure HandedOver (w : World) (c : ClientId) (b : Byte) (w' : World) : Prop where
  connected : (w.client c).socket = .connected
  client : w'.client = w.client
  log : ∃ n, w'.log = w.log ++ [.sent n c b]
  idle : ¬ Awaited w.running c
  awaited : ∀ d, Awaited w'.running d ↔ d = c ∨ Awaited w.running d

structure Received (w : World) (c : ClientId) (rx : Byte) (w' : World) : Prop where
  client : w'.client = received w.client c rx
  log : ∃ n events, w'.log = w.log ++ .answered n c rx :: events ∧
    ∀ e ∈ events, passes e = false
  awaited : ∀ d, Awaited w'.running d ↔ d ≠ c ∧ Awaited w.running d

/-- No other activity waits for the client of `a`. -/
theorem not_awaited_rest (hsynced : Synced w) {pre post : List Activity} {a : Activity}
    (hsplit : w.running = pre ++ a :: post) : ¬ Awaited (pre ++ post) a.client := by
  rintro ⟨a', ha', hclient, _⟩
  exact Callbacks.client_ne_of_mem hsynced hsplit ha' hclient

theorem handedOver_of_step (hsynced : Synced w) {i : Nat} {b : Byte}
    (h : step w (.write i true) = some w') (hover : handsOver w i = some (c, b)) :
    HandedOver w c b w' := by
  simp only [step] at h
  split at h
  case h_2 => cases h
  case h_1 a hget =>
      obtain ⟨pre, post, hsplit, hset, _⟩ := split_of_getElem? hget
      simp only [handsOver, hget] at hover
      split at h
      case h_2 => cases h
      case h_1 b' hcall =>
          simp only [hcall, Option.some.injEq, Prod.mk.injEq] at hover
          obtain ⟨rfl, rfl⟩ := hover
          simp only [hset, if_true, Option.ite_none_right_eq_some, Option.some.injEq] at h
          obtain ⟨hconnected, rfl⟩ := h
          have hrest := not_awaited_rest hsynced hsplit
          have hbefore (d : ClientId) : ¬ Awaits a d := by
            rintro ⟨_, e, he⟩
            rw [hcall] at he
            cases he
          refine ⟨hconnected, rfl, ⟨a.step, by simp [World.log]⟩, ?_, fun d => ?_⟩
          · rw [hsplit, awaited_middle]
            rintro (ha | ha)
            · exact hbefore _ ha
            · exact hrest ha
          · rw [hsplit, awaited_middle, awaited_middle, iff_false_intro (hbefore d), false_or]
            simp [Awaits, eq_comm]

/-- Data is the answer that is due to one exchange, or nobody is waiting for it. -/
theorem data_cases (hsynced : Synced w) {rx : Byte} {now : Int}
    (h : step w (.data c rx now) = some w') :
    (w' = w ∧ ∀ a ∈ w.running, a.hears w.client c rx = false) ∨ Received w c rx w' := by
  simp only [step, Option.ite_none_right_eq_some, Option.some.injEq] at h
  obtain ⟨_, rfl⟩ := h
  have hone : (w.running.filter (·.hears w.client c rx)).length ≤ 1 := by
    refine hsynced.length_filter_le_one c ?_
    exact fun a ha hears => (accepted_of_hears (hsynced.sound a ha) hears).1
  rcases filter_eq_nil_or_split hone with ⟨hnil, hself⟩ | ⟨pre, a, post, hsplit, ha, heq, hrest⟩
  · refine .inl ⟨?_, fun a ha => ?_⟩
    · rw [hnil, hself]
      rfl
    · simpa using List.filter_eq_nil_iff.mp hnil a ha
  · right
    rw [heq, hrest, List.foldl_cons, List.foldl_nil]
    have hmem : a ∈ w.running := by simp [hsplit]
    obtain ⟨rfl, _⟩ := accepted_of_hears (hsynced.sound a hmem) ha
    have hothers := not_awaited_rest hsynced hsplit
    have hkept (d : ClientId) :
        Awaited (pre ++ post) d ↔ d ≠ a.client ∧ Awaited w.running d := by
      rw [hsplit, awaited_middle]
      constructor
      · intro hd
        refine ⟨?_, .inr hd⟩
        rintro rfl
        exact hothers hd
      · rintro ⟨hne, ha | hd⟩
        · exact absurd ha.1.symm hne
        · exact hd
    have hnew (b : Byte) (cont : Continuation) (n : Nat) (c d : ClientId) :
        Awaited (pre ++ post ++ [{ step := n, client := c, call := .delaying b, cont }]) d ↔
          d ≠ a.client ∧ Awaited w.running d := by
      rw [awaited_concat, hkept, or_iff_right]
      rintro ⟨_, e, he⟩
      cases he
    obtain ⟨ops, b, _, _, heq⟩ | ⟨self, b₁, _, _, heq⟩ | ⟨_, heq⟩ :=
      onResolved_cases { w with running := pre ++ post } a rx now
    · rw [heq]
      exact ⟨rfl, ⟨a.step, [], by simp [World.log], by simp⟩, hnew _ _ _ _⟩
    · rw [heq]
      refine ⟨rfl, ⟨a.step, [.transferred b₁ rx, .completed a.step a.client], ?_, ?_⟩,
        hnew _ _ _ _⟩
      · simp [World.log]
      · simp [passes]
    · rw [heq]
      refine ⟨rfl, ⟨a.step, [.completed a.step a.client], ?_, ?_⟩, hkept⟩
      · simp [World.log]
      · simp [passes]

theorem received_of_step (hsynced : Synced w) {rx : Byte} {now : Int}
    (h : step w (.data c rx now) = some w') (hran : callbacksRan w c = true)
    (hawaited : Awaited w.running c) : Received w c rx w' := by
  apply (data_cases hsynced h).resolve_left
  rintro ⟨_, hdeaf⟩
  obtain ⟨a, ha, hclient, e, hcall⟩ := hawaited
  have hsent : e.sentByte = true := by
    have hall := List.all_eq_true.mp hran a ha
    simpa [hcall, hclient] using hall
  have hopen : e.Open := by
    have hsound := hsynced.sound a ha
    rw [hcall] at hsound
    exact hsound.1
  have hresolved := (onData_of_sent hopen hsent (w.client c) rx).2
  have hhears := hdeaf a ha
  simp [Activity.hears, hcall, hclient, hresolved] at hhears

end GbPlay.Server.Tetris.Wire
