import GbPlay.Server.Transcripts
import GbPlay.Server.Tetris.Sync

/-!
# Every callback follows its script

For each `forAllClients` step of the history and each of its clients, the bytes
sent to the client in that step and its answers are a transcript of the
callback, followed by at most one byte that is not answered yet.
-/

namespace GbPlay.Server.Tetris.Callbacks

open GbPlay.Library GbPlay.Library.Runs
open GbPlay.Server.Client GbPlay.Server.Script GbPlay.Server.Transcripts
open GbPlay.Server.Tetris.Data GbPlay.Server.Tetris.Handlers
open GbPlay.Server.Tetris.Model GbPlay.Server.Tetris.Moves GbPlay.Server.Tetris.Sync

/-! ## The exchanges of a client in a step -/

def sentByte (n : Nat) (c : ClientId) (e : Event) : Option Byte :=
  match e with
  | .sent m d b => if m = n ∧ d = c then some b else none
  | _ => none

def answeredByte (n : Nat) (c : ClientId) (e : Event) : Option Byte :=
  match e with
  | .answered m d b => if m = n ∧ d = c then some b else none
  | _ => none

def sentIn (n : Nat) (c : ClientId) (events : List Event) : List Byte :=
  events.filterMap (sentByte n c)

def answeredIn (n : Nat) (c : ClientId) (events : List Event) : List Byte :=
  events.filterMap (answeredByte n c)

/-- An event of client `c` in step `n` that a transcript accounts for. -/
def concerns (n : Nat) (c : ClientId) (e : Event) : Bool :=
  match e with
  | .sent m d _ | .answered m d _ | .completed m d => m = n && d = c
  | _ => false

section Events

variable {n : Nat} {c : ClientId} {events events' : List Event}

@[simp] theorem sentIn_append :
    sentIn n c (events ++ events') = sentIn n c events ++ sentIn n c events' := by
  simp [sentIn]

@[simp] theorem answeredIn_append :
    answeredIn n c (events ++ events') = answeredIn n c events ++ answeredIn n c events' := by
  simp [answeredIn]

theorem sentIn_eq_nil (h : ∀ e ∈ events, concerns n c e = false) : sentIn n c events = [] := by
  rw [sentIn, List.filterMap_eq_nil_iff]
  intro e he
  have hc := h e he
  cases e <;> simp_all [sentByte, concerns]

theorem answeredIn_eq_nil (h : ∀ e ∈ events, concerns n c e = false) :
    answeredIn n c events = [] := by
  rw [answeredIn, List.filterMap_eq_nil_iff]
  intro e he
  have hc := h e he
  cases e <;> simp_all [answeredByte, concerns]

theorem not_concerns_of_stepOf {e : Event} (h : stepOf e ≠ some n) : concerns n c e = false := by
  cases e <;> simp_all [stepOf, concerns]

end Events

/-! ## Progress of a callback -/

/-- The byte of a call that has been handed over and not answered. -/
def outstanding (call : Call) (b : Byte) : List Byte :=
  match call with
  | .exchanging true _ => [b]
  | _ => []

/-- The activity is where the callback `q` exchanges its next byte. -/
structure Attached (a : Activity) (q : List ClientOp) (out : List Byte) : Prop where
  cont : a.cont = .callback q
  call : ∃ b, nextByte q = some b ∧ out = outstanding a.call b ∧
    ∀ b', a.call = .delaying b' → b' = b

def Progress (log : List Event) (running : List Activity) (n : Nat) (c : ClientId)
    (ops : List ClientOp) : Prop :=
  ∃ xs q out, script.Transcript ops xs q ∧ sentIn n c log = xs.map Prod.fst ++ out ∧
    answeredIn n c log = xs.map Prod.snd ∧ Unanswered q out ∧
    (∀ a ∈ running, a.step = n → a.client = c → Attached a q out) ∧
    (.completed n c ∈ log → nextByte q = none)

section Progress

variable {log events : List Event} {running running' : List Activity} {n : Nat} {c : ClientId}
  {ops : List ClientOp}

/-- Events and activities of other clients and steps do not matter. -/
theorem Progress.frame (h : Progress log running n c ops)
    (hevents : ∀ e ∈ events, concerns n c e = false)
    (hrunning : ∀ a ∈ running', a.step = n → a.client = c → a ∈ running) :
    Progress (log ++ events) running' n c ops := by
  obtain ⟨xs, q, out, htranscript, hsent, hanswered, hout, hattached, hcompleted⟩ := h
  refine ⟨xs, q, out, htranscript, ?_, ?_, hout, ?_, ?_⟩
  · rw [sentIn_append, sentIn_eq_nil hevents, List.append_nil, hsent]
  · rw [answeredIn_append, answeredIn_eq_nil hevents, List.append_nil, hanswered]
  · exact fun a ha hn hc => hattached a (hrunning a ha hn hc) hn hc
  · intro hmem
    rcases List.mem_append.mp hmem with hold | hnew
    · exact hcompleted hold
    · simpa [concerns] using hevents _ hnew

end Progress

/-- Every step of the history is accounted for. -/
structure Tracked (w : World) : Prop where
  fresh : ∀ e ∈ w.log, ∀ n, stepOf e = some n → n < w.steps
  progress : ∀ n cs ops, .begun n cs (.forAllClients ops) ∈ w.log → ∀ c ∈ cs,
    Progress w.log w.running n c ops
  others : ∀ n cs ops, .begun n cs (.forAllClients ops) ∈ w.log → ∀ c ∉ cs,
    sentIn n c w.log = [] ∧ answeredIn n c w.log = []
  callback : ∀ a ∈ w.running, ∀ cs ops, .begun a.step cs (.forAllClients ops) ∈ w.log →
    (∃ q, a.cont = .callback q) ∧ a.client ∈ cs

theorem tracked_init : Tracked init := by
  constructor <;> simp [init, World.log]

section Preservation

variable {w : World}

theorem log_mk (w w' : World) (events : List Event) (hpast : w'.past = w.past)
    (hphase : w'.phase = w.phase ++ events) : w'.log = w.log ++ events := by
  simp [World.log, hpast, hphase]

/-- The steps and activities stay, and no event is of a step. -/
theorem tracked_silent (h : Tracked w) {w' : World} (hsteps : w'.steps = w.steps)
    (hrunning : w'.running = w.running) {events : List Event} (hlog : w'.log = w.log ++ events)
    (hevents : ∀ e ∈ events, e.silent = true) : Tracked w' := by
  have hstep : ∀ e ∈ events, stepOf e = none := by
    intro e he
    have hsilent := hevents e he
    cases e <;> first | rfl | simp [Event.silent] at hsilent
  have hconcerns : ∀ n c, ∀ e ∈ events, concerns n c e = false := fun n c e he =>
    not_concerns_of_stepOf (by simp [hstep e he])
  have hbegun : ∀ n cs ops, .begun n cs (.forAllClients ops) ∈ w'.log →
      .begun n cs (.forAllClients ops) ∈ w.log := by
    intro n cs ops hmem
    rw [hlog] at hmem
    rcases List.mem_append.mp hmem with hold | hnew
    · exact hold
    · simpa [Event.silent] using hevents _ hnew
  constructor
  case fresh =>
      intro e he n hn
      rw [hlog] at he
      rw [hsteps]
      rcases List.mem_append.mp he with hold | hnew
      · exact h.fresh e hold n hn
      · simp [hstep e hnew] at hn
  case progress =>
      intro n cs ops hmem c hc
      rw [hlog, hrunning]
      have hprogress := h.progress n cs ops (hbegun n cs ops hmem) c hc
      exact hprogress.frame (hconcerns n c) fun a ha _ _ => ha
  case others =>
      intro n cs ops hmem c hc
      obtain ⟨hsent, hanswered⟩ := h.others n cs ops (hbegun n cs ops hmem) c hc
      rw [hlog]
      simp [hsent, hanswered, sentIn_eq_nil (hconcerns n c), answeredIn_eq_nil (hconcerns n c)]
  case callback =>
      intro a ha cs ops hmem
      rw [hrunning] at ha
      exact h.callback a ha cs ops (hbegun a.step cs ops hmem)

/-! ### Moves of one activity -/

/-- An event of the exchange of `a`. -/
structure About (a : Activity) (e : Event) : Prop where
  ofHandler : ofHandler e = false
  step : ∀ n, stepOf e = some n → n = a.step
  concerns : ∀ n c, concerns n c e = true → n = a.step ∧ c = a.client

theorem about_of_stepOf {a : Activity} {e : Event} (hhandler : Moves.ofHandler e = false)
    (hstep : stepOf e = some a.step)
    (hconcerns : ∀ n c, Callbacks.concerns n c e = true → a.step = n ∧ a.client = c) :
    About a e where
  ofHandler := hhandler
  step := fun _ hn => Option.some.inj (hn.symm.trans hstep)
  concerns := fun n c hc => ⟨(hconcerns n c hc).1.symm, (hconcerns n c hc).2.symm⟩

theorem about_sent (a : Activity) (b : Byte) : About a (.sent a.step a.client b) :=
  about_of_stepOf rfl rfl (by simp [concerns])

theorem about_answered (a : Activity) (b : Byte) : About a (.answered a.step a.client b) :=
  about_of_stepOf rfl rfl (by simp [concerns])

theorem about_completed (a : Activity) : About a (.completed a.step a.client) :=
  about_of_stepOf rfl rfl (by simp [concerns])

theorem about_failed (a : Activity) : About a (.failed a.step a.client) :=
  about_of_stepOf rfl rfl (by simp [concerns])

theorem about_transferred (a : Activity) (b₁ b₂ : Byte) : About a (.transferred b₁ b₂) := by
  constructor <;> simp [Moves.ofHandler, stepOf, Callbacks.concerns]

/-- The exchange of `a` goes on: the activities of its step that are new are its
own, or the other half of a `forwardByte`. -/
structure Advance (w : World) (a : Activity) (events : List Event) (w' : World) : Prop where
  mem : a ∈ w.running
  steps : w'.steps = w.steps
  log : w'.log = w.log ++ events
  about : ∀ e ∈ events, About a e
  running : ∀ a' ∈ w'.running, a' ∈ w.running ∨
    (a'.step = a.step ∧
      ((∃ q, a.cont = .callback q) → a'.client = a.client ∧ ∃ q, a'.cont = .callback q))

theorem Advance.begun {a : Activity} {events : List Event} {w' : World}
    (hadvance : Advance w a events w') {n : Nat} {cs : List ClientId} {task : Task}
    (h : .begun n cs task ∈ w'.log) : .begun n cs task ∈ w.log := by
  rw [hadvance.log] at h
  rcases List.mem_append.mp h with hold | hnew
  · exact hold
  · simpa [Moves.ofHandler] using (hadvance.about _ hnew).ofHandler

theorem tracked_advance (h : Tracked w) (hsynced : Synced w) {a : Activity} {events : List Event}
    {w' : World} (hadvance : Advance w a events w')
    (hprogress : ∀ ops, Progress w.log w.running a.step a.client ops →
      (∃ q, a.cont = .callback q) → Progress w'.log w'.running a.step a.client ops) :
    Tracked w' := by
  have hconcerns : ∀ n c, ¬(n = a.step ∧ c = a.client) → ∀ e ∈ events, concerns n c e = false := by
    intro n c hne e he
    by_contra htrue
    exact hne ((hadvance.about e he).concerns n c (by simpa using htrue))
  constructor
  case fresh =>
      intro e he n hn
      rw [hadvance.log] at he
      rw [hadvance.steps]
      rcases List.mem_append.mp he with hold | hnew
      · exact h.fresh e hold n hn
      · have hstep := hsynced.step a hadvance.mem
        have heq := (hadvance.about e hnew).step n hn
        omega
  case progress =>
      intro n cs ops hmem c hc
      have hold := hadvance.begun hmem
      by_cases hself : n = a.step ∧ c = a.client
      · obtain ⟨rfl, rfl⟩ := hself
        exact hprogress ops (h.progress _ cs ops hold _ hc)
          (h.callback a hadvance.mem cs ops hold).1
      · rw [hadvance.log]
        refine (h.progress n cs ops hold c hc).frame (hconcerns n c hself) ?_
        intro a' ha' hn hclient
        refine (hadvance.running a' ha').resolve_right fun hnew => ?_
        obtain ⟨hsame, hown⟩ := hnew
        have hn' : n = a.step := hn.symm.trans hsame
        subst hn'
        have hcallback := (h.callback a hadvance.mem cs ops hold).1
        exact hself ⟨rfl, hclient.symm.trans (hown hcallback).1⟩
  case others =>
      intro n cs ops hmem c hc
      have hold := hadvance.begun hmem
      obtain ⟨hsent, hanswered⟩ := h.others n cs ops hold c hc
      have hother : ¬(n = a.step ∧ c = a.client) := by
        rintro ⟨rfl, rfl⟩
        exact hc (h.callback a hadvance.mem cs ops hold).2
      rw [hadvance.log]
      simp [hsent, hanswered, sentIn_eq_nil (hconcerns n c hother),
        answeredIn_eq_nil (hconcerns n c hother)]
  case callback =>
      intro a' ha' cs ops hmem
      have hold := hadvance.begun hmem
      rcases hadvance.running a' ha' with hrunning | ⟨hstep, hown⟩
      · exact h.callback a' hrunning cs ops hold
      · rw [hstep] at hold
        obtain ⟨hcallback, hclient⟩ := h.callback a hadvance.mem cs ops hold
        obtain ⟨heq, hcont⟩ := hown hcallback
        exact ⟨hcont, heq ▸ hclient⟩

section Split

variable {pre post : List Activity} {a : Activity}

/-- No other activity serves the client of `a`. -/
theorem client_ne_of_mem (hsynced : Synced w) (hsplit : w.running = pre ++ a :: post)
    {a' : Activity} (ha' : a' ∈ pre ++ post) : a'.client ≠ a.client := by
  intro heq
  have hnodup := hsynced.rest_nodup hsplit
  have hmem : a.client ∈ (pre ++ post).flatMap Activity.owners :=
    List.mem_flatMap.mpr ⟨a', ha', heq ▸ client_mem_owners a'⟩
  exact (List.nodup_append.mp hnodup).2.2 _ (client_mem_owners a) _ hmem rfl

/-- Replacing the call of `a`. -/
theorem advance_call (hsplit : w.running = pre ++ a :: post) (call : Call) (events : List Event)
    (hevents : ∀ e ∈ events, About a e) :
    Advance w a events { w with
      running := pre ++ { a with call := call } :: post
      phase := w.phase ++ events } where
  mem := by simp [hsplit]
  steps := rfl
  log := log_mk w _ events rfl rfl
  about := hevents
  running := by
    intro a' ha'
    rw [hsplit]
    simp only [List.mem_append, List.mem_cons] at ha' ⊢
    rcases ha' with hpre | rfl | hpost
    · exact .inl (.inl hpre)
    · exact .inr ⟨rfl, fun hcallback => ⟨rfl, hcallback⟩⟩
    · exact .inl (.inr (.inr hpost))

/-- The activities of the client of `a` once its call has been replaced. -/
theorem attached_call (hsynced : Synced w) (hsplit : w.running = pre ++ a :: post) {call : Call}
    {q : List ClientOp} {out : List Byte} (h : Attached { a with call := call } q out) :
    ∀ a' ∈ pre ++ { a with call := call } :: post, a'.step = a.step → a'.client = a.client →
      Attached a' q out := by
  intro a' ha' _ hclient
  simp only [List.mem_append, List.mem_cons] at ha'
  rcases ha' with hpre | rfl | hpost
  · exact absurd hclient (client_ne_of_mem hsynced hsplit (List.mem_append_left _ hpre))
  · exact h
  · exact absurd hclient (client_ne_of_mem hsynced hsplit (List.mem_append_right _ hpost))

/-- A change of the call that hands over no byte. -/
theorem tracked_call (h : Tracked w) (hsynced : Synced w) (hsplit : w.running = pre ++ a :: post)
    {call : Call} (hcall : ∀ b, outstanding call b = outstanding a.call b)
    (hdelaying : ∀ b, call ≠ .delaying b) :
    Tracked { w with running := pre ++ { a with call := call } :: post } := by
  have hadvance := advance_call hsplit call [] (by simp)
  simp only [List.append_nil] at hadvance
  refine tracked_advance h hsynced hadvance fun ops hprogress _ => ?_
  obtain ⟨xs, q, out, htranscript, hsent, hanswered, hout, hattached, hcompleted⟩ := hprogress
  obtain ⟨hcont, b, hb, houtstanding, _⟩ := hattached a (by simp [hsplit]) rfl rfl
  refine ⟨xs, q, out, htranscript, hsent, hanswered, hout, ?_, hcompleted⟩
  refine attached_call hsynced hsplit ⟨hcont, b, hb, ?_, fun b' hb' => absurd hb' (hdelaying b')⟩
  rw [houtstanding]
  exact (hcall b).symm

theorem tracked_accepted (h : Tracked w) (hsynced : Synced w)
    (hsplit : w.running = pre ++ a :: post) {b : Byte} (hcall : a.call = .delaying b) :
    Tracked { w with
      running := pre ++ { a with call := .exchanging true .start } :: post
      phase := w.phase ++ [.sent a.step a.client b] } := by
  have hadvance := advance_call hsplit (.exchanging true .start) [.sent a.step a.client b]
    (by simpa using about_sent a b)
  refine tracked_advance h hsynced hadvance fun ops hprogress _ => ?_
  obtain ⟨xs, q, out, htranscript, hsent, hanswered, _, hattached, hcompleted⟩ := hprogress
  obtain ⟨hcont, b', hb', hout, hdelaying⟩ := hattached a (by simp [hsplit]) rfl rfl
  obtain rfl := hdelaying b hcall
  rw [hcall] at hout
  rw [hadvance.log]
  refine ⟨xs, q, [b], htranscript, ?_, ?_, .inr ⟨b, hb', rfl⟩, ?_, ?_⟩
  · rw [sentIn_append, hsent, hout]
    simp [outstanding, sentIn, sentByte]
  · rw [answeredIn_append, hanswered]
    simp [answeredIn, answeredByte]
  · exact attached_call hsynced hsplit ⟨hcont, b, hb', rfl, by simp⟩
  · intro hmem
    exact hcompleted (by simpa using hmem)

/-- The progress of the callback of `a` once its exchange has been answered. -/
theorem progress_answered {log : List Event} {running : List Activity} {ops ops' : List ClientOp}
    {e : Exchange} {rx : Byte} {n : Nat} {c : ClientId} (hcont : a.cont = .callback ops')
    (hcall : a.call = .exchanging true e) (h : Progress log running n c ops)
    (ha : a ∈ running) (hn : a.step = n) (hc : a.client = c)
    {running' : List Activity} {events : List Event}
    (hevents : events = [.answered n c rx] ∨
      (events = [.answered n c rx, .completed n c] ∧ nextByte (afterReply ops' rx) = none))
    (hrunning : ∀ a' ∈ running', a'.step = n → a'.client = c →
      Attached a' (afterReply ops' rx) []) :
    Progress (log ++ events) running' n c ops := by
  obtain ⟨xs, q, out, htranscript, hsent, hanswered, _, hattached, hcompleted⟩ := h
  obtain ⟨hcont', b, hb, hout, _⟩ := hattached a ha hn hc
  obtain rfl : ops' = q := by simpa [hcont] using hcont'
  rw [hcall] at hout
  have hopen : .completed n c ∉ log := fun hmem => by simp [hcompleted hmem] at hb
  refine ⟨xs ++ [(b, rx)], afterReply ops' rx, [], htranscript.snoc hb, ?_, ?_, .inl rfl,
    hrunning, ?_⟩
  · rw [sentIn_append, hsent, hout]
    rcases hevents with rfl | ⟨rfl, _⟩ <;> simp [outstanding, sentIn, sentByte]
  · rw [answeredIn_append, hanswered]
    rcases hevents with rfl | ⟨rfl, _⟩ <;> simp [answeredIn, answeredByte]
  · intro hmem
    rcases hevents with rfl | ⟨rfl, hnone⟩
    · exact absurd (by simpa using hmem) hopen
    · exact hnone

theorem tracked_resolved (h : Tracked w) (hsynced : Synced w)
    (hsplit : w.running = pre ++ a :: post) {e : Exchange} (hcall : a.call = .exchanging true e)
    (rx : Byte) (now : Int) : Tracked ({ w with running := pre ++ post }.onResolved a rx now) := by
  have ha : a ∈ w.running := by simp [hsplit]
  have hold : ∀ a' ∈ pre ++ post, a' ∈ w.running := fun a' ha' => Synced.mem_of_split hsplit ha'
  have hother : ∀ a' ∈ pre ++ post, a'.client ≠ a.client := fun a' ha' =>
    client_ne_of_mem hsynced hsplit ha'
  obtain ⟨ops', b, hcont, hnext, heq⟩ | ⟨self, b₁, hcont, _, heq⟩ | ⟨hcont, heq⟩ :=
    onResolved_cases { w with running := pre ++ post } a rx now
  · have hadvance : Advance w a [.answered a.step a.client rx]
        ({ w with running := pre ++ post }.onResolved a rx now) := by
      rw [heq]
      refine ⟨ha, rfl, log_mk w _ _ rfl rfl, by simpa using about_answered a rx, ?_⟩
      intro a' ha'
      rcases List.mem_append.mp ha' with hmem | hnew
      · exact .inl (hold a' hmem)
      · obtain rfl := List.mem_singleton.mp hnew
        exact .inr ⟨rfl, fun _ => ⟨rfl, _, rfl⟩⟩
    refine tracked_advance h hsynced hadvance fun ops hprogress _ => ?_
    rw [hadvance.log]
    refine progress_answered hcont hcall hprogress ha rfl rfl (.inl rfl) ?_
    rw [heq]
    intro a' ha' _ hclient
    rcases List.mem_append.mp ha' with hmem | hnew
    · exact absurd hclient (hother a' hmem)
    · obtain rfl := List.mem_singleton.mp hnew
      exact ⟨rfl, b, hnext, rfl, by simp [callbackActivity]⟩
  · have hadvance : Advance w a
        [.answered a.step a.client rx, .transferred b₁ rx, .completed a.step a.client]
        ({ w with running := pre ++ post }.onResolved a rx now) := by
      rw [heq]
      refine ⟨ha, rfl, log_mk w _ _ rfl (by simp), ?_, ?_⟩
      · simp [about_answered, about_transferred, about_completed]
      · intro a' ha'
        rcases List.mem_append.mp ha' with hmem | hnew
        · exact .inl (hold a' hmem)
        · obtain rfl := List.mem_singleton.mp hnew
          exact .inr ⟨rfl, fun hcallback => by simp [hcont] at hcallback⟩
    refine tracked_advance h hsynced hadvance fun ops _ hcallback => ?_
    simp [hcont] at hcallback
  · have hadvance : Advance w a [.answered a.step a.client rx, .completed a.step a.client]
        ({ w with running := pre ++ post }.onResolved a rx now) := by
      rw [heq]
      refine ⟨ha, rfl, log_mk w _ _ rfl (by simp), ?_, fun a' ha' => .inl (hold a' ha')⟩
      simp [about_answered, about_completed]
    refine tracked_advance h hsynced hadvance fun ops hprogress hcallback => ?_
    rcases hcont with hself | ⟨ops', hcont, hnone⟩
    · simp [hself] at hcallback
    · rw [hadvance.log]
      refine progress_answered hcont hcall hprogress ha rfl rfl (.inr ⟨rfl, hnone⟩) ?_
      rw [heq]
      exact fun a' ha' _ hclient => absurd hclient (hother a' ha')

theorem tracked_rejected (h : Tracked w) (hsynced : Synced w)
    (hsplit : w.running = pre ++ a :: post) :
    Tracked ({ w with running := pre ++ post }.onRejected a) := by
  have hadvance : Advance w a [.failed a.step a.client]
      ({ w with running := pre ++ post }.onRejected a) :=
    ⟨by simp [hsplit], rfl, log_mk w _ _ rfl rfl, by simpa using about_failed a,
      fun a' ha' => .inl (Synced.mem_of_split hsplit ha')⟩
  refine tracked_advance h hsynced hadvance fun ops hprogress _ => ?_
  rw [hadvance.log]
  refine hprogress.frame (by simp [concerns]) fun a' ha' _ _ => ?_
  exact Synced.mem_of_split hsplit ha'

end Split

theorem tracked_endSession (h : Tracked w) : Tracked w.endSession := by
  unfold World.endSession
  split
  · exact h
  · exact tracked_silent h rfl rfl (log_mk w _ [.ended] rfl rfl) (by simp [Event.silent])

theorem tracked_move (h : Tracked w) (hsynced : Synced w) {w' : World} (hmove : Move w w') :
    Tracked w' := by
  cases hmove with
  | ended => exact tracked_endSession h
  | accepted pre post a b hsplit hcall => exact tracked_accepted h hsynced hsplit hcall
  | refused pre post a b hsplit hcall =>
      exact tracked_call h hsynced hsplit (by simp [outstanding, hcall]) (by simp)
  | kept pre post a accepted e e' hsplit hcall _ =>
      refine tracked_call h hsynced hsplit (fun b => ?_) (by simp)
      rw [hcall]
      cases accepted <;> rfl
  | resolved pre post a e rx now hsplit hcall =>
      exact tracked_resolved h hsynced hsplit hcall rx now
  | rejected pre post a accepted e hsplit hcall => exact tracked_rejected h hsynced hsplit
  | _ => exact { h with }

/-! ### Handlers -/

/-- `w'` has begun a step with the clients `cs`; `rest` are their completions if
there is nothing to do. -/
structure Begins (w : World) (cs : List ClientId) (task : Task) (events rest : List Event)
    (w' : World) : Prop where
  steps : w'.steps = w.steps + 1
  log : w'.log = w.log ++ (events ++ .begun w.steps cs task :: rest)
  silent : ∀ e ∈ events, e.silent = true
  completions : ∀ e ∈ rest, ∃ c, e = .completed w.steps c
  running : ∀ a ∈ w'.running, a.step = w.steps ∧
    ∀ ops, task = .forAllClients ops → (∃ q, a.cont = .callback q) ∧ a.client ∈ cs
  attached : ∀ ops, task = .forAllClients ops →
    (rest = [] ∧ ∀ a ∈ w'.running, Attached a ops []) ∨ (nextByte ops = none ∧ w'.running = [])

section Begins

variable {cs : List ClientId} {task : Task} {events rest : List Event} {w' : World}

theorem Begins.sent_nil (hbegins : Begins w cs task events rest w') (h : Tracked w)
    (c : ClientId) : sentIn w.steps c w'.log = [] ∧ answeredIn w.steps c w'.log = [] := by
  have hfresh : ∀ e ∈ w.log, concerns w.steps c e = false := fun e he =>
    not_concerns_of_stepOf fun hstep => absurd (h.fresh e he _ hstep) (Nat.lt_irrefl _)
  have hsilent : ∀ e ∈ events, concerns w.steps c e = false := by
    intro e he
    have hsilent := hbegins.silent e he
    cases e <;> first | rfl | simp [Event.silent] at hsilent
  rw [hbegins.log]
  constructor
  · rw [sentIn_append, sentIn_eq_nil hfresh, sentIn_append, sentIn_eq_nil hsilent]
    simp only [sentIn, List.nil_append, List.filterMap_eq_nil_iff, List.mem_cons]
    rintro e (rfl | he)
    · rfl
    · obtain ⟨c', rfl⟩ := hbegins.completions e he
      rfl
  · rw [answeredIn_append, answeredIn_eq_nil hfresh, answeredIn_append, answeredIn_eq_nil hsilent]
    simp only [answeredIn, List.nil_append, List.filterMap_eq_nil_iff, List.mem_cons]
    rintro e (rfl | he)
    · rfl
    · obtain ⟨c', rfl⟩ := hbegins.completions e he
      rfl

theorem Begins.begun (hbegins : Begins w cs task events rest w') {n : Nat}
    {cs' : List ClientId} {ops : List ClientOp}
    (hmem : .begun n cs' (.forAllClients ops) ∈ w'.log) :
    .begun n cs' (.forAllClients ops) ∈ w.log ∨
      (n = w.steps ∧ cs' = cs ∧ task = .forAllClients ops) := by
  rw [hbegins.log] at hmem
  simp only [List.mem_append, List.mem_cons] at hmem
  rcases hmem with hold | hsilent | hnew | hrest
  · exact .inl hold
  · simpa [Event.silent] using hbegins.silent _ hsilent
  · obtain ⟨rfl, rfl, rfl⟩ := Event.begun.inj hnew
    exact .inr ⟨rfl, rfl, rfl⟩
  · obtain ⟨c, hc⟩ := hbegins.completions _ hrest
    simp at hc

theorem Begins.not_concerns (hbegins : Begins w cs task events rest w') {n : Nat}
    (hn : n < w.steps) (c : ClientId) :
    ∀ e ∈ events ++ .begun w.steps cs task :: rest, concerns n c e = false := by
  intro e he
  simp only [List.mem_append, List.mem_cons] at he
  rcases he with hsilent | rfl | hrest
  · have hsilent' := hbegins.silent e hsilent
    cases e <;> first | rfl | simp [Event.silent] at hsilent'
  · rfl
  · obtain ⟨c', rfl⟩ := hbegins.completions e hrest
    have hne : w.steps ≠ n := by omega
    simp [concerns, hne]

theorem Begins.progress (hbegins : Begins w cs task events rest w') (h : Tracked w)
    {ops : List ClientOp} (htask : task = .forAllClients ops) (c : ClientId) :
    Progress w'.log w'.running w.steps c ops := by
  obtain ⟨hsent, hanswered⟩ := hbegins.sent_nil h c
  refine ⟨[], ops, [], .nil, hsent, hanswered, .inl rfl, ?_, ?_⟩
  · intro a ha _ _
    rcases hbegins.attached ops htask with ⟨_, hattached⟩ | ⟨_, hidle⟩
    · exact hattached a ha
    · simp [hidle] at ha
  · intro hmem
    rcases hbegins.attached ops htask with ⟨rfl, _⟩ | ⟨hnone, _⟩
    · rw [hbegins.log] at hmem
      simp only [List.mem_append, List.mem_cons, List.not_mem_nil, or_false] at hmem
      rcases hmem with hold | hsilent | hnew
      · exact absurd (h.fresh _ hold _ rfl) (Nat.lt_irrefl _)
      · simpa [Event.silent] using hbegins.silent _ hsilent
      · simp at hnew
    · exact hnone

theorem tracked_begins (h : Tracked w) (hbegins : Begins w cs task events rest w') :
    Tracked w' := by
  constructor
  case fresh =>
      intro e he n hn
      rw [hbegins.steps]
      rw [hbegins.log] at he
      simp only [List.mem_append, List.mem_cons] at he
      rcases he with hold | hsilent | rfl | hrest
      · exact Nat.lt_succ_of_lt (h.fresh e hold n hn)
      · have hsilent' := hbegins.silent e hsilent
        cases e <;> simp [Event.silent, stepOf] at hsilent' hn
      · simp only [stepOf, Option.some.injEq] at hn
        omega
      · obtain ⟨c', rfl⟩ := hbegins.completions e hrest
        simp only [stepOf, Option.some.injEq] at hn
        omega
  case progress =>
      intro n cs' ops hmem c hc
      rcases hbegins.begun hmem with hold | ⟨rfl, rfl, htask⟩
      · have hn := h.fresh _ hold n rfl
        rw [hbegins.log]
        refine (h.progress n cs' ops hold c hc).frame (hbegins.not_concerns hn c) ?_
        intro a ha hstep _
        have hnew := (hbegins.running a ha).1
        omega
      · exact hbegins.progress h htask c
  case others =>
      intro n cs' ops hmem c hc
      rcases hbegins.begun hmem with hold | ⟨rfl, rfl, _⟩
      · have hnot := hbegins.not_concerns (h.fresh _ hold n rfl) c
        obtain ⟨hsent, hanswered⟩ := h.others n cs' ops hold c hc
        rw [hbegins.log, sentIn_append, answeredIn_append, hsent, hanswered, sentIn_eq_nil hnot,
          answeredIn_eq_nil hnot]
        exact ⟨rfl, rfl⟩
      · exact hbegins.sent_nil h c
  case callback =>
      intro a ha cs' ops hmem
      obtain ⟨hstep, hcallback⟩ := hbegins.running a ha
      rcases hbegins.begun hmem with hold | ⟨_, rfl, htask⟩
      · have hlt := h.fresh _ hold _ rfl
        omega
      · exact hcallback ops htask

end Begins

theorem tracked_perform (h : Tracked w) {r : Resumption} (hr : Continues w r) :
    Tracked (w.perform r) := by
  unfold World.perform
  split
  case h_1 hdone => exact tracked_silent h rfl rfl (log_mk w _ r.events rfl rfl) hr.silent
  case h_2 frame hsleep => exact tracked_silent h rfl rfl (log_mk w _ r.events rfl rfl) hr.silent
  case h_3 task frame htask =>
      cases task with
      | forAllClients ops =>
          simp only [World.startTask, World.startCallbacks, hr.idle, List.nil_append]
          split
          case h_1 b hb =>
              refine tracked_begins h
                (?_ : Begins w r.session.clients (.forAllClients ops) r.events [] _)
              refine ⟨rfl, log_mk w _ _ rfl (by simp), hr.silent, by simp, ?_, ?_⟩
              · intro a ha
                obtain ⟨c, hc, rfl⟩ := List.mem_map.mp ha
                exact ⟨rfl, fun _ _ => ⟨⟨_, rfl⟩, hc⟩⟩
              · intro ops' hops'
                obtain rfl : ops = ops' := by simpa using hops'
                refine .inl ⟨rfl, fun a ha => ?_⟩
                obtain ⟨c, _, rfl⟩ := List.mem_map.mp ha
                exact ⟨rfl, b, hb, rfl, by simp [callbackActivity]⟩
          case h_2 hnone =>
              refine tracked_begins h (?_ : Begins w r.session.clients (.forAllClients ops) r.events
                (r.session.clients.map (.completed w.steps)) _)
              refine ⟨rfl, log_mk w _ _ rfl (by simp), hr.silent, ?_, by simp, ?_⟩
              · intro e he
                obtain ⟨c, _, rfl⟩ := List.mem_map.mp he
                exact ⟨c, rfl⟩
              · intro ops' hops'
                obtain rfl : ops = ops' := by simpa using hops'
                exact .inr ⟨hnone, rfl⟩
      | forwardClientBytes =>
          simp only [World.startTask]
          split
          case h_1 c₁ c₂ hforwarded =>
              simp only [World.startForwarding, hr.idle, List.nil_append]
              refine tracked_begins h (?_ : Begins w [c₁, c₂] .forwardClientBytes r.events [] _)
              refine ⟨rfl, log_mk w _ _ rfl (by simp), hr.silent, by simp, ?_, by simp⟩
              intro a ha
              obtain rfl := List.mem_singleton.mp ha
              exact ⟨rfl, by simp⟩
          case h_2 =>
              have hpaused : Tracked { w with
                  session := r.session, phase := w.phase ++ r.events } :=
                tracked_silent h rfl rfl (log_mk w _ r.events rfl rfl) hr.silent
              exact { tracked_endSession hpaused with }

theorem tracked_handleState (h : Tracked w) (hsynced : Synced w)
    (hhandler : w.handler = .scheduled) (draws : Draws) (now₀ now₁ : Int) :
    Tracked (w.handleState draws now₀ now₁) := by
  have hstarted : Tracked { w with past := w.log, phase := [.handlerStarted w.session.state] } :=
    tracked_silent h rfl rfl rfl (by simp [Event.silent])
  exact tracked_perform hstarted { continues_start hsynced draws now₀ now₁ hhandler with }

end Preservation

theorem tracked_reachable {w : World} (h : Reachable (Fires step) init w) : Tracked w := by
  refine (invariant_of_moves tracked_init ?_ ?_ ?_ h).2
  · exact fun w draws now₀ now₁ hsynced hI hhandler =>
      tracked_handleState hI hsynced hhandler draws now₀ now₁
  · exact fun w frame b now _ hI _ hcontinues => tracked_perform hI hcontinues
  · exact fun w w' hsynced hI hmove => tracked_move hI hsynced hmove

/-- What client `c` has exchanged in a `forAllClients` step is a transcript of its
callback, which has returned where the client has completed the step. -/
theorem Tracked.transcript {w : World} (h : Tracked w) {n : Nat} {cs : List ClientId}
    {ops : List ClientOp} (hmem : .begun n cs (.forAllClients ops) ∈ w.log) (c : ClientId) :
    ∃ xs q out, script.Transcript ops xs q ∧ sentIn n c w.log = xs.map Prod.fst ++ out ∧
      answeredIn n c w.log = xs.map Prod.snd ∧ Unanswered q out ∧
      (c ∈ cs → .completed n c ∈ w.log → nextByte q = none) := by
  by_cases hc : c ∈ cs
  · obtain ⟨xs, q, out, htranscript, hsent, hanswered, hout, _, hcompleted⟩ :=
      h.progress n cs ops hmem c hc
    exact ⟨xs, q, out, htranscript, hsent, hanswered, hout, fun _ => hcompleted⟩
  · obtain ⟨hsent, hanswered⟩ := h.others n cs ops hmem c hc
    exact ⟨[], ops, [], .nil, hsent, hanswered, .inl rfl, fun hin => absurd hin hc⟩

end GbPlay.Server.Tetris.Callbacks
