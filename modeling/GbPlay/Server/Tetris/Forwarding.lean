import GbPlay.Library.Histories
import GbPlay.Server.Tetris.Match

/-!
# What a session forwards

In a `forwardClientBytes` step each client is sent the last byte that the other one
has answered, however the steps of the session and of its clients are interleaved.
-/

namespace GbPlay.Server.Tetris.Forwarding

open GbPlay.Library.Histories GbPlay.Library.Runs GbPlay.Library.Sessions
open GbPlay.Server.Client GbPlay.Server.Script GbPlay.Server.Tetris.Data
open GbPlay.Server.Tetris.Handlers GbPlay.Server.Tetris.Model GbPlay.Server.Tetris.Moves
open GbPlay.Server.Tetris.Sync GbPlay.Server.Tetris.Initialization GbPlay.Server.Tetris.Wire
open GbPlay.Server.Tetris.Match hiding Inv inv_init inv_reachable

/-- What `lastReceivedByte` of a client is to be. -/
def lastAnswer (c : ClientId) (log : List Event) : Byte := ((answeredBy c log).getLast?).getD 0

/-- The second client is sent the last answer of the first one, and then the first one is sent
what the second one has answered to that. -/
def Forwards (earlier : List Event) (e : Event) : Prop :=
  ∀ n c b c₁ c₂, e = .sent n c b → .begun n [c₁, c₂] .forwardClientBytes ∈ earlier →
    (c = c₂ ∧ b = lastAnswer c₁ earlier) ∨
      (c = c₁ ∧ b = lastAnswer c₂ earlier ∧ .answered n c₂ b ∈ earlier)

/-- What an activity that has not handed over its byte yet will hand over. -/
inductive Pending (log : List Event) (working : List ClientId) (a : Activity) : Prop
  | callback {ops : List ClientOp} : a.cont = .callback ops →
      (∀ cs, .begun a.step cs .forwardClientBytes ∉ log) → Pending log working a
  | other {self : ClientId} : a.cont = .forwardOther self →
      .begun a.step [self, a.client] .forwardClientBytes ∈ log →
      (∀ b, a.call = .delaying b → b = lastAnswer self log) → Pending log working a
  | self {c : ClientId} : a.cont = .forwardSelf →
      .begun a.step [a.client, c] .forwardClientBytes ∈ log → c ∉ working →
      (∀ b, a.call = .delaying b → b = lastAnswer c log ∧ .answered a.step c b ∈ log) →
      Pending log working a

structure Inv (w : World) : Prop where
  sent : Along Forwards w.log
  pending : ∀ a ∈ w.running, Pending w.log w.working a
  fresh : ∀ n cs task, .begun n cs task ∈ w.log → n < w.steps
  once : ∀ n cs cs' task task', .begun n cs task ∈ w.log → .begun n cs' task' ∈ w.log →
    cs = cs' ∧ task = task'

variable {w w' : World} {log events : List Event} {working working' : List ClientId}
  {a a' : Activity} {c : ClientId}

/-! ## Events that change nothing -/

/-- No byte passes, and no step begins. -/
def Plain (e : Event) : Prop := passes e = false ∧ ofHandler e = false

theorem plain_completed (n : Nat) (c : ClientId) : Plain (.completed n c) := ⟨rfl, rfl⟩

theorem lastAnswer_append (h : ∀ e ∈ events, passes e = false) :
    lastAnswer c (log ++ events) = lastAnswer c log := by
  rw [lastAnswer, answeredBy_append, answeredBy_of_not_passes h, List.append_nil]
  rfl

theorem lastAnswer_answered (n : Nat) (rx : Byte) (h : ∀ e ∈ events, passes e = false) :
    lastAnswer c (log ++ .answered n c rx :: events) = rx := by
  rw [lastAnswer, answeredBy_answered _ _ _ _ h, if_pos rfl]
  simp

theorem lastAnswer_of_ne (n : Nat) (rx : Byte) {d : ClientId} (hne : d ≠ c)
    (h : ∀ e ∈ events, passes e = false) :
    lastAnswer c (log ++ .answered n d rx :: events) = lastAnswer c log := by
  rw [lastAnswer, answeredBy_answered _ _ _ _ h, if_neg hne, List.append_nil]
  rfl

theorem forwards_of_not_sent {e : Event} (h : ∀ n c b, e ≠ .sent n c b) (earlier : List Event) :
    Forwards earlier e :=
  fun n c b _ _ heq _ => absurd heq (h n c b)

theorem begun_of_append {n : Nat} {cs : List ClientId} {task : Task}
    (hevents : ∀ e ∈ events, ofHandler e = false) (h : .begun n cs task ∈ log ++ events) :
    .begun n cs task ∈ log := by
  rcases List.mem_append.mp h with h | h
  · exact h
  · cases hevents _ h

/-- An activity goes on to wait for the byte that it has said it would send. -/
theorem Pending.append (h : Pending log working a) (hevents : ∀ e ∈ events, ofHandler e = false)
    (hlast : ∀ d, (∃ b, a.call = .delaying b) → a.cont = .forwardOther d ∨
      (a.cont = .forwardSelf ∧ d ∉ working) → lastAnswer d (log ++ events) = lastAnswer d log)
    (hworking : ∀ c ∈ working', c ∈ working) : Pending (log ++ events) working' a := by
  cases h with
  | callback hcont hnone =>
      exact .callback hcont fun cs hmem => hnone cs (begun_of_append hevents hmem)
  | @other self hcont hbegun hbyte =>
      refine .other hcont (List.mem_append_left _ hbegun) fun b hb => ?_
      rw [hlast self ⟨b, hb⟩ (.inl hcont)]
      exact hbyte b hb
  | @self c hcont hbegun hdone hbyte =>
      refine .self hcont (List.mem_append_left _ hbegun) (fun hc => hdone (hworking c hc)) ?_
      intro b hb
      obtain ⟨hlastByte, hanswered⟩ := hbyte b hb
      rw [hlast c ⟨b, hb⟩ (.inr ⟨hcont, hdone⟩)]
      exact ⟨hlastByte, List.mem_append_left _ hanswered⟩

theorem Pending.plain (h : Pending log working a) (hevents : ∀ e ∈ events, Plain e)
    (hworking : ∀ c ∈ working', c ∈ working) : Pending (log ++ events) working' a :=
  h.append (fun e he => (hevents e he).2)
    (fun _ _ _ => lastAnswer_append fun e he => (hevents e he).1) hworking

/-- Another call of the activity, which hands over nothing. -/
theorem Pending.call (h : Pending log working a) {call : Call} (hcall : ∀ b, call ≠ .delaying b) :
    Pending log working { a with call := call } := by
  cases h with
  | callback hcont hnone => exact .callback hcont hnone
  | other hcont hbegun _ => exact .other hcont hbegun fun b hb => absurd hb (hcall b)
  | self hcont hbegun hdone _ =>
      exact .self hcont hbegun hdone fun b hb => absurd hb (hcall b)

theorem along_plain (h : Along Forwards log) (hevents : ∀ e ∈ events, passes e = false) :
    Along Forwards (log ++ events) := by
  refine h.append fun e he => forwards_of_not_sent ?_
  rintro n c b rfl
  cases hevents _ he

/-- The running activities are among those there were, and no step begins. -/
theorem Inv.plain (h : Inv w) (hlog : w'.log = w.log ++ events)
    (hevents : ∀ e ∈ events, Plain e) (hsteps : w'.steps = w.steps)
    (hworking : ∀ c ∈ w'.working, c ∈ w.working)
    (hrunning : ∀ a ∈ w'.running, Pending w.log w.working a) : Inv w' := by
  have hhandler : ∀ e ∈ events, ofHandler e = false := fun e he => (hevents e he).2
  constructor
  · rw [hlog]
    exact along_plain h.sent fun e he => (hevents e he).1
  · intro a ha
    rw [hlog]
    exact (hrunning a ha).plain hevents hworking
  · intro n cs task hmem
    rw [hlog] at hmem
    rw [hsteps]
    exact h.fresh n cs task (begun_of_append hhandler hmem)
  · intro n cs cs' task task' hmem hmem'
    rw [hlog] at hmem hmem'
    exact h.once n cs cs' task task' (begun_of_append hhandler hmem)
      (begun_of_append hhandler hmem')

/-! ## Moves -/

theorem inv_init : Inv Model.init := by
  constructor
  · exact along_nil
  · simp [Model.init]
  · simp [Model.init, World.log]
  · simp [Model.init, World.log]

/-- Replacing the call of an activity. -/
theorem inv_call (h : Inv w) {pre post : List Activity}
    (hsplit : w.running = pre ++ a :: post) {call : Call} (hcall : ∀ b, call ≠ .delaying b) :
    Inv { w with running := pre ++ { a with call := call } :: post } := by
  refine h.plain (List.append_nil _).symm (by simp) rfl ?_ ?_
  · intro c hc
    simpa [World.working, hsplit, Activity.owners] using hc
  · intro a' ha'
    simp only [List.mem_append, List.mem_cons] at ha'
    rcases ha' with ha' | rfl | ha'
    · exact h.pending a' (by simp [hsplit, ha'])
    · exact (h.pending a (by simp [hsplit])).call hcall
    · exact h.pending a' (by simp [hsplit, ha'])

/-- A byte is handed over. -/
theorem inv_accepted (h : Inv w) {pre post : List Activity} {b : Byte}
    (hsplit : w.running = pre ++ a :: post) (hcall : a.call = .delaying b) :
    Inv { w with
      running := pre ++ { a with call := .exchanging true .start } :: post
      phase := w.phase ++ [.sent a.step a.client b] } := by
  have hpending := h.pending a (by simp [hsplit])
  have hforwards : Forwards w.log (.sent a.step a.client b) := by
    intro n c b' c₁ c₂ heq hbegun
    cases heq
    cases hpending with
    | callback _ hnone => exact absurd hbegun (hnone _)
    | other hcont hmem hbyte =>
        obtain ⟨hcs, _⟩ := h.once _ _ _ _ _ hmem hbegun
        cases hcs
        exact .inl ⟨rfl, hbyte b hcall⟩
    | self hcont hmem _ hbyte =>
        obtain ⟨hcs, _⟩ := h.once _ _ _ _ _ hmem hbegun
        cases hcs
        exact .inr ⟨rfl, hbyte b hcall⟩
  have hstarted : ∀ b, Call.exchanging true .start ≠ .delaying b := nofun
  have hreplaced := inv_call h hsplit hstarted
  have hlog : World.log { w with
      running := pre ++ { a with call := .exchanging true .start } :: post
      phase := w.phase ++ [.sent a.step a.client b] } = w.log ++ [.sent a.step a.client b] := by
    simp [World.log]
  have hhandler : ∀ e ∈ [Event.sent a.step a.client b], ofHandler e = false := by
    simp [ofHandler]
  constructor
  · rw [hlog, along_concat]
    exact ⟨h.sent, hforwards⟩
  · intro a' ha'
    rw [hlog]
    refine (hreplaced.pending a' ha').append hhandler (fun d _ _ => ?_) fun _ hc => hc
    rw [lastAnswer, answeredBy_sent]
    rfl
  · intro n cs task hmem
    rw [hlog] at hmem
    exact h.fresh n cs task (begun_of_append hhandler hmem)
  · intro n cs cs' task task' hmem hmem'
    rw [hlog] at hmem hmem'
    exact h.once n cs cs' task task' (begun_of_append hhandler hmem)
      (begun_of_append hhandler hmem')

/-- An answer of the client of `a`, whose exchange is over. -/
theorem inv_answered (h : Inv w) (hsynced : Synced w) {pre post : List Activity} (rx : Byte)
    (hsplit : w.running = pre ++ a :: post)
    (hlog : w'.log = w.log ++ .answered a.step a.client rx :: events)
    (hevents : ∀ e ∈ events, Plain e) (hsteps : w'.steps = w.steps)
    (hworking : ∀ c ∈ w'.working, c ∈ w.working)
    (hrunning : ∀ a' ∈ w'.running, a' ∈ pre ++ post ∨ Pending w'.log w'.working a') :
    Inv w' := by
  have hpasses : ∀ e ∈ events, passes e = false := fun e he => (hevents e he).1
  have hhandler : ∀ e ∈ Event.answered a.step a.client rx :: events, ofHandler e = false := by
    intro e he
    rcases List.mem_cons.mp he with rfl | he
    · rfl
    · exact (hevents e he).2
  have hclient : a.client ∈ w.working :=
    (Synced.mem_working_iff hsplit _).mpr (.inl (client_mem_owners a))
  constructor
  · rw [hlog]
    refine h.sent.append fun e he => forwards_of_not_sent ?_
    rintro n c b rfl
    rcases List.mem_cons.mp he with heq | he
    · cases heq
    · cases hpasses _ he
  · intro a' ha'
    refine (hrunning a' ha').elim (fun hrest => ?_) id
    rw [hlog]
    refine (h.pending a' (Synced.mem_of_split hsplit hrest)).append hhandler ?_ hworking
    intro d _ hd
    apply lastAnswer_of_ne _ _ _ hpasses
    rintro rfl
    rcases hd with hcont | ⟨_, hd⟩
    · -- the first client of its `forwardByte` is not served by another activity
      have hnodup := hsynced.rest_nodup hsplit
      have howner : a.client ∈ (pre ++ post).flatMap Activity.owners := by
        apply List.mem_flatMap.mpr ⟨a', hrest, _⟩
        simp [Activity.owners, hcont]
      exact (List.nodup_append.mp hnodup).2.2 _ (client_mem_owners a) _ howner rfl
    · exact hd hclient
  · intro n cs task hmem
    rw [hlog] at hmem
    rw [hsteps]
    exact h.fresh n cs task (begun_of_append hhandler hmem)
  · intro n cs cs' task task' hmem hmem'
    rw [hlog] at hmem hmem'
    exact h.once n cs cs' task task' (begun_of_append hhandler hmem)
      (begun_of_append hhandler hmem')

theorem inv_resolved (h : Inv w) (hsynced : Synced w) {pre post : List Activity}
    (hsplit : w.running = pre ++ a :: post) (rx : Byte) (now : Int) :
    Inv ({ w with running := pre ++ post }.onResolved a rx now) := by
  have hpending := h.pending a (by simp [hsplit])
  have hmem := Synced.mem_working_iff hsplit
  have hnodup := hsynced.rest_nodup hsplit
  obtain ⟨ops, b, hcont, _, heq⟩ | ⟨self, b₁, hcont, _, heq⟩ | ⟨hcont, heq⟩ :=
    onResolved_cases { w with running := pre ++ post } a rx now
  · rw [heq]
    have hlog := Callbacks.log_mk w { w with
      phase := w.phase ++ [.answered a.step a.client rx] } _ rfl rfl
    refine inv_answered h hsynced rx hsplit hlog (by simp) rfl ?_ ?_
    · intro c hc
      rw [World.working, flatMap_owners_append, List.mem_append] at hc
      rw [hmem]
      refine hc.elim .inr fun hc => .inl ?_
      rw [owners_callbackActivity, List.mem_singleton] at hc
      exact hc ▸ client_mem_owners a
    · intro a' ha'
      rcases List.mem_append.mp ha' with ha' | ha'
      · exact .inl ha'
      · rw [List.mem_singleton] at ha'
        subst ha'
        refine .inr (.callback rfl fun cs hbegun => ?_)
        cases hpending with
        | callback _ hnone =>
            have hmem : .begun a.step cs .forwardClientBytes ∈
                w.log ++ [.answered a.step a.client rx] := by
              rw [← hlog]
              exact hbegun
            exact hnone cs (begun_of_append (by simp [ofHandler]) hmem)
        | other hcont' _ _ => simp [hcont] at hcont'
        | self hcont' _ _ _ => simp [hcont] at hcont'
  · rw [heq]
    have howners : a.owners = [a.client, self] := by simp [Activity.owners, hcont]
    rw [howners] at hnodup hmem
    simp only [List.cons_append, List.nil_append, List.nodup_cons, List.mem_cons, not_or] at hnodup
    obtain ⟨⟨hne, hfresh⟩, _⟩ := hnodup
    have hevents : ∀ e ∈ [Event.transferred b₁ rx, .completed a.step a.client], Plain e := by
      simp [Plain, passes, ofHandler]
    refine inv_answered h hsynced rx hsplit (by simp [World.log]) hevents rfl ?_ ?_
    · intro c hc
      rw [World.working, flatMap_owners_append, List.mem_append] at hc
      rw [hmem]
      refine hc.elim .inr fun hc => .inl ?_
      simp only [Activity.owners, List.mem_singleton] at hc
      simp [hc]
    · intro a' ha'
      rcases List.mem_append.mp ha' with ha' | ha'
      · exact .inl ha'
      · rw [List.mem_singleton] at ha'
        subst ha'
        right
        cases hpending with
        | callback hcont' _ => simp [hcont] at hcont'
        | self hcont' _ _ _ => simp [hcont] at hcont'
        | other hcont' hbegun _ =>
            obtain rfl : self = _ := by simpa [hcont] using hcont'
            refine .self rfl (c := a.client) ?_ ?_ ?_
            · simp only [World.log, List.mem_append] at hbegun ⊢
              tauto
            · rw [World.working, flatMap_owners_append, List.mem_append]
              simp only [Activity.owners, List.mem_singleton, not_or]
              exact ⟨hfresh, hne⟩
            · intro b hb
              cases hb
              have hlog : w.log ++ .answered a.step a.client rx ::
                  [.transferred b₁ rx, .completed a.step a.client] =
                    w.past ++ (w.phase ++ [.answered a.step a.client rx] ++
                      [.transferred b₁ rx] ++ [.completed a.step a.client]) := by
                simp [World.log]
              constructor
              · rw [World.log, ← hlog]
                exact (lastAnswer_answered _ _ fun e he => (hevents e he).1).symm
              · simp [World.log]
  · rw [heq]
    have hevents : ∀ e ∈ [Event.completed a.step a.client], Plain e := by
      simp [plain_completed]
    refine inv_answered h hsynced rx hsplit (by simp [World.log]) hevents rfl ?_ ?_
    · intro c hc
      rw [hmem]
      exact .inr hc
    · exact fun a' ha' => .inl ha'

theorem inv_rejected (h : Inv w) {pre post : List Activity}
    (hsplit : w.running = pre ++ a :: post) :
    Inv ({ w with running := pre ++ post }.onRejected a) := by
  have hevents : ∀ e ∈ [Event.failed a.step a.client], Plain e := by
    simp [Plain, passes, ofHandler]
  refine h.plain (by simp [World.onRejected, World.log]) hevents rfl ?_ ?_
  · intro c hc
    rw [Synced.mem_working_iff hsplit]
    exact .inr hc
  · exact fun a' ha' => h.pending a' (Synced.mem_of_split hsplit ha')

theorem inv_endSession (h : Inv w) : Inv w.endSession := by
  unfold World.endSession
  split
  · exact h
  · have hevents : ∀ e ∈ [Event.ended], Plain e := by simp [Plain, passes, ofHandler]
    exact h.plain (by simp [World.log]) hevents rfl (fun _ hc => hc) h.pending

theorem inv_move (h : Inv w) (hsynced : Synced w) (hmove : Move w w') : Inv w' := by
  cases hmove with
  | ended => exact inv_endSession h
  | accepted pre post a b hsplit hcall => exact inv_accepted h hsplit hcall
  | refused pre post a b hsplit hcall => exact inv_call h hsplit (by simp)
  | kept pre post a accepted e e' hsplit hcall hsound => exact inv_call h hsplit (by simp)
  | resolved pre post a e rx now hsplit hcall => exact inv_resolved h hsynced hsplit rx now
  | rejected pre post a accepted e hsplit hcall => exact inv_rejected h hsplit
  | _ => exact h.plain (List.append_nil _).symm (by simp) rfl (fun _ hc => hc) h.pending

/-! ## Handlers -/

/-- `lastReceivedByte` of every client is its last answer. -/
def Recorded (w : World) : Prop :=
  ∀ c, (w.client c).lastReceivedByte = lastAnswer c w.log

/-- A step begins, and what it does has been recorded before. -/
theorem inv_begins (h : Inv w) {cs : List ClientId} {task : Task} {silent rest : List Event}
    (hlog : w'.log = w.log ++ (silent ++ .begun w.steps cs task :: rest))
    (hsteps : w'.steps = w.steps + 1) (hsilent : ∀ e ∈ silent, e.silent = true)
    (hrest : ∀ e ∈ rest, Plain e)
    (hpending : ∀ a ∈ w'.running, a.step = w.steps ∧ Pending w'.log w'.working a) : Inv w' := by
  have hevents : ∀ e ∈ silent ++ .begun w.steps cs task :: rest, passes e = false := by
    intro e he
    rcases List.mem_append.mp he with he | he
    · exact passes_of_silent (hsilent e he)
    · rcases List.mem_cons.mp he with rfl | he
      · rfl
      · exact (hrest e he).1
  have hbegun : ∀ n cs' task', .begun n cs' task' ∈ w'.log →
      .begun n cs' task' ∈ w.log ∨ (n = w.steps ∧ cs' = cs ∧ task' = task) := by
    intro n cs' task' hmem
    rw [hlog] at hmem
    rcases List.mem_append.mp hmem with hmem | hmem
    · exact .inl hmem
    · rcases List.mem_append.mp hmem with hmem | hmem
      · simpa [Event.silent] using hsilent _ hmem
      · rcases List.mem_cons.mp hmem with heq | hmem
        · cases heq
          exact .inr ⟨rfl, rfl, rfl⟩
        · cases (hrest _ hmem).2
  constructor
  · rw [hlog]
    exact along_plain h.sent hevents
  · exact fun a ha => (hpending a ha).2
  · intro n cs' task' hmem
    rw [hsteps]
    rcases hbegun n cs' task' hmem with hmem | ⟨rfl, _⟩
    · exact Nat.lt_succ_of_lt (h.fresh n cs' task' hmem)
    · exact Nat.lt_succ_self _
  · intro n cs₁ cs₂ task₁ task₂ hmem₁ hmem₂
    rcases hbegun n cs₁ task₁ hmem₁ with hold₁ | ⟨rfl, rfl, rfl⟩
    · rcases hbegun n cs₂ task₂ hmem₂ with hold₂ | ⟨rfl, _⟩
      · exact h.once n cs₁ cs₂ task₁ task₂ hold₁ hold₂
      · exact absurd (h.fresh _ _ _ hold₁) (Nat.lt_irrefl _)
    · rcases hbegun w.steps cs₂ task₂ hmem₂ with hold₂ | ⟨_, rfl, rfl⟩
      · exact absurd (h.fresh _ _ _ hold₂) (Nat.lt_irrefl _)
      · exact ⟨rfl, rfl⟩

theorem inv_silent (h : Inv w) (hidle : w'.running = []) (hsteps : w'.steps = w.steps)
    (hlog : w'.log = w.log ++ events) (hsilent : ∀ e ∈ events, e.silent = true) : Inv w' := by
  have hbegun {n : Nat} {cs : List ClientId} {task : Task} (hmem : .begun n cs task ∈ w'.log) :
      .begun n cs task ∈ w.log := by
    rw [hlog] at hmem
    rcases List.mem_append.mp hmem with hmem | hmem
    · exact hmem
    · simpa [Event.silent] using hsilent _ hmem
  constructor
  · rw [hlog]
    exact along_plain h.sent fun e he => passes_of_silent (hsilent e he)
  · simp [hidle]
  · intro n cs task hmem
    rw [hsteps]
    exact h.fresh n cs task (hbegun hmem)
  · exact fun n cs cs' task task' hmem hmem' =>
      h.once n cs cs' task task' (hbegun hmem) (hbegun hmem')

theorem inv_perform (h : Inv w) (hrecorded : Recorded w) {r : Resumption}
    (hr : Continues w r) : Inv (w.perform r) := by
  have hsilent : ∀ e ∈ r.events, passes e = false := fun e he => passes_of_silent (hr.silent e he)
  unfold World.perform
  split
  case h_1 =>
      exact inv_silent h hr.idle rfl (Callbacks.log_mk w _ r.events rfl rfl) hr.silent
  case h_2 =>
      exact inv_silent h hr.idle rfl (Callbacks.log_mk w _ r.events rfl rfl) hr.silent
  case h_3 task frame htask =>
      cases task with
      | forAllClients ops =>
          simp only [World.startTask, World.startCallbacks, hr.idle, List.nil_append]
          split
          case h_1 b hb =>
              have hlog := Callbacks.log_mk w { w with
                phase := w.phase ++ r.events ++
                  [.begun w.steps r.session.clients (.forAllClients ops)] } _ rfl
                (List.append_assoc _ _ _)
              refine inv_begins h hlog rfl hr.silent (by simp) ?_
              intro a ha
              obtain ⟨c, _, rfl⟩ := List.mem_map.mp ha
              refine ⟨rfl, .callback rfl fun cs hmem => ?_⟩
              have hmem' : .begun w.steps cs .forwardClientBytes ∈
                  w.log ++ (r.events ++
                    [.begun w.steps r.session.clients (.forAllClients ops)]) := by
                rw [← hlog]
                exact hmem
              simp only [List.mem_append, List.mem_singleton] at hmem'
              rcases hmem' with hold | hsilent | hnew
              · exact absurd (h.fresh _ _ _ hold) (Nat.lt_irrefl _)
              · simpa [Event.silent] using hr.silent _ hsilent
              · cases hnew
          case h_2 hnone =>
              have hlog := Callbacks.log_mk w { w with
                phase := w.phase ++ r.events ++
                  .begun w.steps r.session.clients (.forAllClients ops) ::
                    r.session.clients.map (.completed w.steps) } _ rfl
                (List.append_assoc _ _ _)
              refine inv_begins h hlog rfl hr.silent ?_ (by simp)
              intro e he
              obtain ⟨c, _, rfl⟩ := List.mem_map.mp he
              exact plain_completed _ _
      | forwardClientBytes =>
          simp only [World.startTask]
          split
          case h_1 c₁ c₂ hforwarded =>
              simp only [World.startForwarding, hr.idle, List.nil_append]
              have hlog := Callbacks.log_mk w { w with
                phase := w.phase ++ r.events ++ [.begun w.steps [c₁, c₂] .forwardClientBytes] } _
                rfl (List.append_assoc _ _ _)
              refine inv_begins h hlog rfl hr.silent (by simp) ?_
              intro a ha
              rw [List.mem_singleton] at ha
              subst ha
              refine ⟨rfl, .other rfl ?_ ?_⟩
              · simp [World.log]
              · intro b hb
                cases hb
                rw [hrecorded c₁]
                have hevents : ∀ e ∈ r.events ++ [.begun w.steps [c₁, c₂] .forwardClientBytes],
                    passes e = false := by
                  intro e he
                  rcases List.mem_append.mp he with he | he
                  · exact hsilent e he
                  · rw [List.mem_singleton.mp he]
                    rfl
                exact (hlog ▸ lastAnswer_append hevents).symm
          case h_2 =>
              have hpaused : Inv { w with
                  session := r.session, phase := w.phase ++ r.events } :=
                inv_silent h hr.idle rfl (Callbacks.log_mk w _ r.events rfl rfl) hr.silent
              have hended := inv_endSession hpaused
              exact ⟨hended.sent, hended.pending, hended.fresh, hended.once⟩

theorem inv_handleState (h : Inv w) (hrecorded : Recorded w) (hsynced : Synced w)
    (hhandler : w.handler = .scheduled) (draws : Draws) (now₀ now₁ : Int) :
    Inv (w.handleState draws now₀ now₁) := by
  have hcontinues := continues_start hsynced draws now₀ now₁ hhandler
  have hstarted : Inv { w with past := w.log, phase := [.handlerStarted w.session.state] } :=
    inv_silent h hcontinues.idle rfl rfl (by simp [Event.silent])
  apply inv_perform hstarted
  · intro c
    have hevents : ∀ e ∈ [Event.handlerStarted w.session.state], passes e = false := by
      simp [passes]
    exact (hrecorded c).trans (lastAnswer_append hevents).symm
  · exact { hcontinues with }

/-! ## Runs -/

theorem recorded_step (h : Recorded w) (hsynced : Synced w) {l : Model.Label}
    (hstep : Model.step w l = some w') : Recorded w' := by
  intro c
  by_cases hwrite : ∃ i, l = .write i true
  · obtain ⟨i, rfl⟩ := hwrite
    cases hover : handsOver w i with
    | none =>
        simp only [Model.step, handsOver] at hstep hover
        grind
    | some cb =>
        obtain ⟨d, b⟩ := cb
        have hhanded := handedOver_of_step hsynced hstep hover
        obtain ⟨n, hlog⟩ := hhanded.log
        rw [hhanded.client, h c, lastAnswer, lastAnswer, hlog, answeredBy_sent]
  · by_cases hdata : ∃ d rx now, l = .data d rx now
    · obtain ⟨d, rx, now, rfl⟩ := hdata
      rcases data_cases hsynced hstep with ⟨rfl, _⟩ | hreceived
      · exact h c
      · obtain ⟨n, events, hlog, hevents⟩ := hreceived.log
        rw [hreceived.client, hlog, received]
        by_cases hdc : d = c
        · subst hdc
          rw [Function.update_self, lastAnswer_answered _ _ hevents]
        · rw [Function.update_of_ne (Ne.symm hdc), lastAnswer_of_ne _ _ hdc hevents]
          exact h c
    · have haside := aside_of_step hsynced hstep (fun i hi => hwrite ⟨i, hi⟩)
        (fun d rx now hd => hdata ⟨d, rx, now, hd⟩)
      rw [(haside.client c).1, h c, lastAnswer, lastAnswer, haside.answeredBy]

theorem inv_reachable (h : Reachable (Fires Model.step) Model.init w) : Inv w := by
  have hall : Synced w ∧ Recorded w ∧ Inv w := by
    refine h.invariant (I := fun w => Synced w ∧ Recorded w ∧ Inv w)
      ⟨synced_init, fun _ => rfl, inv_init⟩ ?_
    rintro t l u ⟨hsynced, hrecorded, hI⟩ hstep
    have hrecorded' := recorded_step hrecorded hsynced hstep
    rcases step_cases hsynced.toExclusive hstep with ⟨draws, now₀, now₁, _, hhandler, rfl⟩ |
      ⟨frame, b, now, hhandler, hpending, hrejected, rfl⟩ | hpath
    · exact ⟨synced_handleState hsynced draws now₀ now₁ hhandler, hrecorded',
        inv_handleState hI hrecorded hsynced hhandler draws now₀ now₁⟩
    · have hcontinues := continues_resume hsynced now hhandler hpending hrejected
      exact ⟨synced_perform hsynced hcontinues, hrecorded', inv_perform hI hrecorded hcontinues⟩
    · have hpair : Synced u ∧ Inv u := by
        clear hstep hrecorded'
        induction hpath with
        | refl => exact ⟨hsynced, hI⟩
        | tail _ hlast ih => exact ⟨synced_move ih.1 hlast, inv_move ih.2 ih.1 hlast⟩
      exact ⟨hpair.1, hrecorded', hpair.2⟩
  exact hall.2.2

/-- In every run of a session with the dongles and the Game Boys of its clients, a client that is
sent a byte in a `forwardClientBytes` step is sent the last answer of the other one, and the
first client what the second has answered in that step; and all that the other has answered
are the answers of its Game Boy. -/
theorem game_boys_forwarded {γ : Type*} {device : ClientId → γ → Byte → γ × Byte}
    {g₀ : ClientId → γ} {s : State γ}
    (h : Reachable (Fires (Match.step device)) (Match.init g₀) s) {pre post : List Event}
    {n : Nat} {c c₁ c₂ : ClientId} {b : Byte} (hlog : s.world.log = pre ++ .sent n c b :: post)
    (hbegun : .begun n [c₁, c₂] .forwardClientBytes ∈ pre) :
    ∃ d, ((c = c₂ ∧ d = c₁) ∨ (c = c₁ ∧ d = c₂ ∧ .answered n d b ∈ pre)) ∧
      b = lastAnswer d pre ∧
      answeredBy d pre <+: answers (device d) (g₀ d) (sentTo d s.world.log) := by
  have hinv := Match.inv_reachable h
  have hgenuine (d : ClientId) :
      answeredBy d pre <+: answers (device d) (g₀ d) (sentTo d s.world.log) := by
    obtain ⟨due, hd⟩ := hinv.linked d
    refine List.IsPrefix.trans ?_ (hd.exchanging.genuine Link.connectionPhase_state).1
    rw [hlog, answeredBy_append]
    exact List.prefix_append _ _
  rcases (inv_reachable hinv.world).sent pre _ post hlog n c b c₁ c₂ rfl hbegun with
    ⟨rfl, hb⟩ | ⟨rfl, hb, hanswered⟩
  · exact ⟨c₁, .inl ⟨rfl, rfl⟩, hb, hgenuine c₁⟩
  · exact ⟨c₂, .inr ⟨rfl, rfl, hanswered⟩, hb, hgenuine c₂⟩

/-- While the difficulty is chosen, the second client is sent what the first one has answered
to the end of the choice of music. -/
theorem game_boys_forwarded_difficulty :
    ∃ (s : State Byte) (pre : List Event),
      s.world.log = pre ++ [.sent 1 8 (lastAnswer 7 pre)] ∧
        answeredBy 7 pre <+: answers storedGame 0x55 (sentTo 7 s.world.log) := by
  have hrun : (exec (Match.step fun _ => storedGame) (Match.init fun _ => 0x55)
      (chooseMusic ++ Match.exchange 0 8 ++ [.session (.resume 0), .session (.tick draws₀ 0 0),
        .session (.write 0 true)])).any
      (fun s => decide (.begun 1 [7, 8] .forwardClientBytes ∈ s.world.log.dropLast ∧
        s.world.log.getLast? = some (.sent 1 8 0x55))) = true := by
    decide +kernel
  obtain ⟨s, hs, hp⟩ := exists_reachable_of_exec hrun
  rw [decide_eq_true_iff] at hp
  obtain ⟨hbegun, hlast⟩ := hp
  have hlog : s.world.log = s.world.log.dropLast ++ [.sent 1 8 0x55] :=
    (List.dropLast_append_getLast? _ hlast).symm
  obtain ⟨d, hd, hb, hgenuine⟩ := game_boys_forwarded hs hlog hbegun
  have hd7 : d = 7 := by
    rcases hd with ⟨_, hd⟩ | ⟨h, _⟩
    · exact hd
    · cases h
  subst hd7
  exact ⟨s, _, hb ▸ hlog, hgenuine⟩

end GbPlay.Server.Tetris.Forwarding
