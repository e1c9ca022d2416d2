import Mathlib.Data.Set.Insert
import GbPlay.Library.Rounds
import GbPlay.Server.Tetris.Moves

/-!
# The session keeps its clients in step

`Synced` ties the suspended handler to the activities: the clients it waits for
are those the running activities serve, all of the step begun last, and no two
activities serve the same client.  With it the steps of a session are the
rounds of a group whose members are its clients.
-/

namespace GbPlay.Server.Tetris.Sync

open GbPlay.Library GbPlay.Library.Runs
open GbPlay.Server.Client GbPlay.Server.Script GbPlay.Server.Tetris.Data
open GbPlay.Server.Tetris.Handlers GbPlay.Server.Tetris.Model GbPlay.Server.Tetris.Moves

/-! ## What a handler waits for -/

def failed (handler : Handler) : Bool :=
  match handler with
  | .scheduled => false
  | .suspended _ b => b.rejected
  | .stopped => true

/-- Unless its promise is rejected, the handler waits for the clients in `working`. -/
def Awaits (handler : Handler) (steps : Nat) (working : List ClientId) : Prop :=
  match handler with
  | .scheduled => working = []
  | .suspended _ b => b.rejected = false →
      b.pending.Nodup ∧ (∀ c, c ∈ b.pending ↔ c ∈ working) ∧ (working ≠ [] → b.step + 1 = steps)
  | .stopped => True

section Awaits

variable {handler : Handler} {steps step : Nat} {working working' : List ClientId} {c : ClientId}

theorem eq_nil_of_mem_iff {α : Type*} {l l' : List α} (h : ∀ x, x ∈ l' ↔ x ∈ l) :
    l' = [] ↔ l = [] := by
  simp only [List.eq_nil_iff_forall_not_mem, h]

theorem Awaits.congr (h : Awaits handler steps working) (hmem : ∀ c, c ∈ working' ↔ c ∈ working) :
    Awaits handler steps working' := by
  cases handler with
  | scheduled => exact (eq_nil_of_mem_iff hmem).mpr h
  | stopped => trivial
  | suspended frame b =>
      intro hrejected
      obtain ⟨hnodup, hpending, hstep⟩ := h hrejected
      refine ⟨hnodup, fun c => (hpending c).trans (hmem c).symm, fun hne => hstep ?_⟩
      exact fun hnil => hne ((eq_nil_of_mem_iff hmem).mpr hnil)

theorem Awaits.complete (h : Awaits handler steps working) (hc : c ∈ working)
    (hstep : step + 1 = steps) (hmem : ∀ c', c' ∈ working' ↔ c' ≠ c ∧ c' ∈ working) :
    Awaits (handler.complete step c) steps working' := by
  have hne : working ≠ [] := List.ne_nil_of_mem hc
  cases handler with
  | scheduled => exact absurd h hne
  | stopped => trivial
  | suspended frame b =>
      simp only [Handler.complete]
      split
      case isTrue heq =>
          intro hrejected
          obtain ⟨hnodup, hpending, _⟩ := h hrejected
          refine ⟨hnodup.erase c, fun c' => ?_, fun _ => by rw [← hstep]; exact congrArg _ heq⟩
          show c' ∈ b.pending.erase c ↔ c' ∈ working'
          rw [hnodup.mem_erase_iff, hpending, hmem]
      case isFalse hother =>
          intro hrejected
          obtain ⟨_, _, hsame⟩ := h hrejected
          have := hsame hne
          omega

theorem Awaits.transfer (h : Awaits handler steps working) (b₁ b₂ : Byte) (now : Int) :
    Awaits (handler.transfer step b₁ b₂ now) steps working := by
  cases handler with
  | scheduled => exact h
  | stopped => trivial
  | suspended frame b =>
      simp only [Handler.transfer]
      split <;> exact h

theorem Awaits.reject (h : Awaits handler steps working) (hne : working ≠ [])
    (hstep : step + 1 = steps) : failed (handler.reject step) = true := by
  cases handler with
  | scheduled => exact absurd h hne
  | stopped => rfl
  | suspended frame b =>
      simp only [Handler.reject]
      split
      case isTrue => rfl
      case isFalse hother =>
          by_contra hrejected
          have := (h (by simpa [failed] using hrejected)).2.2 hne
          omega

theorem awaits_of_failed (h : failed handler = true) : Awaits handler steps working := by
  cases handler with
  | scheduled => simp [failed] at h
  | stopped => trivial
  | suspended frame b => exact fun hrejected => by simp [failed, hrejected] at h

@[simp] theorem failed_complete : failed (handler.complete step c) = failed handler := by
  cases handler with
  | suspended frame b =>
      simp only [Handler.complete]
      split <;> rfl
  | _ => rfl

@[simp] theorem failed_transfer {b₁ b₂ : Byte} {now : Int} :
    failed (handler.transfer step b₁ b₂ now) = failed handler := by
  cases handler with
  | suspended frame b =>
      simp only [Handler.transfer]
      split <;> rfl
  | _ => rfl

end Awaits

/-! ## The invariant -/

structure Synced (w : World) : Prop extends Exclusive w where
  members : w.session.clients = if w.session.ended then [] else w.joined
  required : w.session.requiredClientCount = 2
  joined_nodup : w.joined.Nodup
  joined_le : w.joined.length ≤ 2
  /-- Nothing happens before two clients have joined. -/
  assembled : w.joined.length = 2 ∨
    (w.session.state = .waitingForPlayers ∧ w.handler = .scheduled ∧ w.steps = 0)
  step : ∀ a ∈ w.running, a.step + 1 = w.steps
  awaits : Awaits w.handler w.steps w.working

theorem synced_init : Synced init := by
  constructor
  case toExclusive => exact ⟨by simp [World.working, init], by simp [init]⟩
  case assembled => exact .inr ⟨rfl, rfl, rfl⟩
  all_goals simp [init, Awaits, World.working]

theorem owners_callbackActivity (step : Nat) (ops : List ClientOp) (b : Byte) (c : ClientId) :
    (callbackActivity step ops b c).owners = [c] := rfl

theorem flatMap_owners_callbackActivity (step : Nat) (ops : List ClientOp) (b : Byte)
    (cs : List ClientId) : (cs.map (callbackActivity step ops b)).flatMap Activity.owners = cs := by
  induction cs with
  | nil => rfl
  | cons c cs ih => simpa [owners_callbackActivity] using ih

theorem flatMap_owners_append (l : List Activity) (a : Activity) :
    (l ++ [a]).flatMap Activity.owners = l.flatMap Activity.owners ++ a.owners := by
  simp

/-- The activities around `a` serve the clients `a` does not. -/
theorem working_split {w : World} {pre post : List Activity} {a : Activity}
    (h : w.running = pre ++ a :: post) :
    w.working.Perm (a.owners ++ (pre ++ post).flatMap Activity.owners) := by
  have hperm : (pre ++ a :: post).Perm (a :: (pre ++ post)) := List.perm_middle
  rw [World.working, h]
  simpa using hperm.flatMap_right Activity.owners

section Preservation

variable {w : World}

theorem Synced.clients_nodup (h : Synced w) : w.session.clients.Nodup := by
  rw [h.members]
  split
  · exact List.nodup_nil
  · exact h.joined_nodup

theorem synced_endSession (h : Synced w) : Synced w.endSession := by
  unfold World.endSession
  split
  · exact h
  case isFalse hlive =>
      have hlive' : w.session.ended = false := by simpa using hlive
      refine { h with members := ?_, required := ?_ } <;>
        simp [GameSession.endSession_of_live hlive', h.required]

theorem synced_joined (h : Synced w) {c : ClientId} (hjoinable : w.session.isJoinable = true)
    (hnew : c ∉ w.joined) : w.steps = 0 ∧ Synced { w with
      session := { w.session with toGameSession := w.session.addClient c }
      joined := w.joined ++ [c] } := by
  obtain ⟨hlive, hroom⟩ := (GameSession.isJoinable_iff _).mp hjoinable
  have hclients : w.session.clients = w.joined := by simp [h.members, hlive]
  rw [hclients, h.required] at hroom
  have hwaiting := h.assembled.resolve_left (by omega)
  refine ⟨hwaiting.2.2, { h with
    members := ?_, joined_nodup := ?_, joined_le := ?_, assembled := .inr hwaiting }⟩
  · simp [GameSession.addClient, hclients, hlive]
  · exact h.joined_nodup.append (List.nodup_singleton c) (by simpa using hnew)
  · simp only [List.length_append, List.length_singleton]
    omega

/-- What a stretch of handler code may do where it is resumed. -/
structure Continues (w : World) (r : Resumption) : Prop where
  idle : w.running = []
  live : failed w.handler = false
  base : r.session.toGameSession = w.session.toGameSession
  silent : ∀ e ∈ r.events, e.silent = true
  assembled : w.joined.length = 2 ∨
    (r.session.state = .waitingForPlayers ∧ r.next = .done ∧ w.steps = 0)

theorem synced_perform (h : Synced w) {r : Resumption} (hr : Continues w r) :
    Synced (w.perform r) := by
  have hworking : w.working = [] := by simp [World.working, hr.idle]
  have hsteps : ∀ next, r.next = next → next ≠ .done → w.joined.length = 2 := by
    intro next hnext hne
    exact hr.assembled.resolve_right fun hwaiting => hne (hnext ▸ hwaiting.2.1)
  have hclients : r.session.clients = if r.session.ended then [] else w.joined := by
    rw [hr.base]
    exact h.members
  have hrequired : r.session.requiredClientCount = 2 := by
    rw [hr.base]
    exact h.required
  have hnodup : r.session.clients.Nodup := by
    rw [hr.base]
    exact h.clients_nodup
  unfold World.perform
  split
  case h_1 hdone =>
      refine { h with
        members := hclients, required := hrequired, awaits := hworking, assembled := ?_ }
      exact hr.assembled.imp_right fun hwaiting => ⟨hwaiting.1, rfl, hwaiting.2.2⟩
  case h_2 frame hsleep =>
      refine { h with
        members := hclients, required := hrequired
        assembled := .inl (hsteps _ hsleep (by simp)), awaits := fun _ => ?_ }
      simp [World.working, hr.idle]
  case h_3 task frame htask =>
      have hfull := hsteps _ htask (by simp)
      cases task with
      | forAllClients ops =>
          simp only [World.startTask, World.startCallbacks, hr.idle, List.nil_append]
          split
          case h_1 b hb =>
              have howners := flatMap_owners_callbackActivity w.steps ops b r.session.clients
              refine {
                members := hclients, required := hrequired
                joined_nodup := h.joined_nodup, joined_le := h.joined_le
                assembled := .inl hfull
                nodup := ?_, sound := ?_, step := ?_
                awaits := fun _ => ⟨hnodup, ?_, fun _ => rfl⟩ }
              · rwa [World.working, howners]
              · simp [callbackActivity, Sound]
              · simp [callbackActivity]
              · intro c
                rw [World.working, howners]
          case h_2 hnone =>
              refine {
                members := hclients, required := hrequired
                joined_nodup := h.joined_nodup, joined_le := h.joined_le
                assembled := .inl hfull
                nodup := by simp [World.working], sound := by simp, step := by simp
                awaits := fun _ => by simp [World.working] }
      | forwardClientBytes =>
          simp only [World.startTask]
          split
          case h_1 c₁ c₂ hforwarded =>
              have hpair := GameSession.clients_eq_of_forwardedClients hrequired hforwarded
              rw [hpair] at hnodup
              have hdistinct : c₁ ≠ c₂ := by simpa using hnodup
              simp only [World.startForwarding, hr.idle, List.nil_append]
              refine {
                members := hclients, required := hrequired
                joined_nodup := h.joined_nodup, joined_le := h.joined_le
                assembled := .inl hfull
                nodup := ?_, sound := by simp [Sound], step := by simp
                awaits := fun _ => ⟨hnodup, ?_, fun _ => rfl⟩ }
              · simpa [World.working, Activity.owners] using hdistinct.symm
              · intro c
                simp [World.working, Activity.owners, or_comm]
          case h_2 =>
              have hpaused : Synced { w with
                  session := r.session, phase := w.phase ++ r.events } := by
                refine { h with
                  members := hclients, required := hrequired, assembled := .inl hfull }
              refine { synced_endSession hpaused with awaits := trivial, assembled := .inl ?_ }
              simp only [World.catchError, World.endSession]
              split <;> exact hfull

/-! ### Exchanges -/

/-- Replacing the call of an activity by a sound one. -/
theorem synced_call (h : Synced w) {pre post : List Activity} {a : Activity} {call : Call}
    (hsplit : w.running = pre ++ a :: post) (hcall : Sound call) (events : List Event) :
    Synced { w with
      running := pre ++ { a with call := call } :: post
      phase := w.phase ++ events } := by
  have hworking : (pre ++ { a with call := call } :: post).flatMap Activity.owners = w.working := by
    simp [World.working, hsplit, Activity.owners]
  have hmem : ∀ a' ∈ pre ++ { a with call := call } :: post, a' = { a with call := call } ∨
      a' ∈ w.running := by
    intro a' ha'
    rw [hsplit]
    simp only [List.mem_append, List.mem_cons] at ha' ⊢
    tauto
  refine { h with nodup := ?_, sound := ?_, step := ?_, awaits := ?_ }
  · rw [World.working, hworking]
    exact h.nodup
  · intro a' ha'
    rcases hmem a' ha' with rfl | hold
    · exact hcall
    · exact h.sound a' hold
  · intro a' ha'
    rcases hmem a' ha' with rfl | hold
    · exact h.step a (by simp [hsplit])
    · exact h.step a' hold
  · rw [World.working, hworking]
    exact h.awaits

section Removal

variable {pre post : List Activity} {a : Activity}

theorem Synced.mem_of_split (hsplit : w.running = pre ++ a :: post) {a' : Activity}
    (ha' : a' ∈ pre ++ post) : a' ∈ w.running := by
  rw [hsplit]
  simp only [List.mem_append, List.mem_cons] at ha' ⊢
  tauto

theorem Synced.rest_nodup (h : Synced w) (hsplit : w.running = pre ++ a :: post) :
    (a.owners ++ (pre ++ post).flatMap Activity.owners).Nodup :=
  (working_split hsplit).nodup_iff.mp h.nodup

theorem Synced.mem_working_iff (hsplit : w.running = pre ++ a :: post) (c : ClientId) :
    c ∈ w.working ↔ c ∈ a.owners ∨ c ∈ (pre ++ post).flatMap Activity.owners := by
  rw [(working_split hsplit).mem_iff, List.mem_append]

theorem synced_resolved (h : Synced w) (hsplit : w.running = pre ++ a :: post) (rx : Byte)
    (now : Int) : Synced ({ w with running := pre ++ post }.onResolved a rx now) := by
  have hstep := h.step a (by simp [hsplit])
  have hmem := Synced.mem_working_iff hsplit
  have hnodup := h.rest_nodup hsplit
  have hclient : a.client ∈ w.working := (hmem _).mpr (.inl (client_mem_owners a))
  have hsound : ∀ a' ∈ pre ++ post, Sound a'.call := fun a' ha' =>
    h.sound a' (Synced.mem_of_split hsplit ha')
  have hsteps : ∀ a' ∈ pre ++ post, a'.step + 1 = w.steps := fun a' ha' =>
    h.step a' (Synced.mem_of_split hsplit ha')
  have hassembled : w.joined.length = 2 := by
    refine h.assembled.resolve_right fun hwaiting => ?_
    rw [hwaiting.2.2] at hstep
    omega
  obtain ⟨ops, b, hcont, _, heq⟩ | ⟨self, b₁, hcont, _, heq⟩ | ⟨hcont, heq⟩ :=
    onResolved_cases { w with running := pre ++ post } a rx now
  · have howners : a.owners = [a.client] := by simp [Activity.owners, hcont]
    rw [howners] at hnodup hmem
    rw [heq]
    refine { h with nodup := ?_, sound := ?_, step := ?_, awaits := h.awaits.congr ?_ }
    · rw [World.working, flatMap_owners_append]
      exact List.perm_append_comm.nodup_iff.mp hnodup
    · simpa [or_imp, forall_and, callbackActivity, Sound] using hsound
    · simpa [or_imp, forall_and, callbackActivity, hstep] using hsteps
    · intro c
      rw [hmem, World.working, flatMap_owners_append, List.mem_append, or_comm]
      rfl
  · have howners : a.owners = [a.client, self] := by simp [Activity.owners, hcont]
    rw [howners] at hnodup hmem
    simp only [List.cons_append, List.nil_append, List.nodup_cons, List.mem_cons, not_or] at hnodup
    obtain ⟨⟨hne, hfresh⟩, hself, hrest⟩ := hnodup
    rw [heq]
    refine { h with
      nodup := ?_, sound := ?_, step := ?_, assembled := .inl hassembled
      awaits := (h.awaits.transfer b₁ rx now).complete hclient hstep ?_ }
    · have hperm : (self :: (pre ++ post).flatMap Activity.owners).Nodup :=
        List.nodup_cons.mpr ⟨hself, hrest⟩
      rw [World.working, flatMap_owners_append]
      exact List.perm_append_comm.nodup_iff.mp (List.singleton_append ▸ hperm)
    · simpa [or_imp, forall_and, Sound] using hsound
    · simpa [or_imp, forall_and, hstep] using hsteps
    · intro c
      rw [hmem]
      have hc : c ∈ (pre ++ post).flatMap Activity.owners → c ≠ a.client := by
        rintro hc rfl
        exact hfresh hc
      rw [World.working, flatMap_owners_append, List.mem_append]
      simp only [Activity.owners, List.mem_cons, List.not_mem_nil, or_false]
      constructor
      · rintro (hold | rfl)
        · exact ⟨hc hold, .inr hold⟩
        · exact ⟨fun heq => hne heq.symm, .inl (.inr rfl)⟩
      · tauto
  · have howners : a.owners = [a.client] := by
      rcases hcont with hcont | ⟨ops, hcont, _⟩ <;> simp [Activity.owners, hcont]
    rw [howners] at hnodup hmem
    simp only [List.cons_append, List.nil_append, List.nodup_cons] at hnodup
    rw [heq]
    refine { h with
      nodup := hnodup.2, sound := hsound, step := hsteps, assembled := .inl hassembled
      awaits := h.awaits.complete hclient hstep ?_ }
    intro c
    rw [hmem]
    have hc : c ∈ (pre ++ post).flatMap Activity.owners → c ≠ a.client := by
      rintro hc rfl
      exact hnodup.1 hc
    simp only [World.working, List.mem_singleton]
    tauto

theorem synced_rejected (h : Synced w) (hsplit : w.running = pre ++ a :: post) :
    Synced ({ w with running := pre ++ post }.onRejected a) := by
  have hstep := h.step a (by simp [hsplit])
  have hclient : a.client ∈ w.working :=
    (Synced.mem_working_iff hsplit _).mpr (.inl (client_mem_owners a))
  have hassembled : w.joined.length = 2 := by
    refine h.assembled.resolve_right fun hwaiting => ?_
    rw [hwaiting.2.2] at hstep
    omega
  refine { h with
    nodup := (List.nodup_append.mp (h.rest_nodup hsplit)).2.1
    sound := fun a' ha' => h.sound a' (Synced.mem_of_split hsplit ha')
    step := fun a' ha' => h.step a' (Synced.mem_of_split hsplit ha')
    assembled := .inl hassembled
    awaits := awaits_of_failed ?_ }
  exact h.awaits.reject (List.ne_nil_of_mem hclient) hstep

end Removal

/-! ### Handlers -/

theorem running_eq_nil (h : w.working = []) : w.running = [] := by
  rw [World.working, List.flatMap_eq_nil_iff] at h
  rw [List.eq_nil_iff_forall_not_mem]
  intro a ha
  exact List.ne_nil_of_mem (client_mem_owners a) (h a ha)

theorem continues_resume (h : Synced w) {frame : Frame} {b : Barrier} (now : Int)
    (hhandler : w.handler = .suspended frame b) (hpending : b.pending = [])
    (hrejected : b.rejected = false) : Continues w (Handlers.resume w.session now frame) := by
  have hawaits := h.awaits
  rw [hhandler] at hawaits
  obtain ⟨_, hmem, _⟩ := hawaits hrejected
  refine ⟨running_eq_nil ?_, ?_, resume_toGameSession _ _ _, resume_silent _ _ _, .inl ?_⟩
  · rw [← eq_nil_of_mem_iff hmem]
    exact hpending
  · rw [hhandler]
    exact hrejected
  · exact h.assembled.resolve_right fun hwaiting => by simp [hhandler] at hwaiting

theorem continues_start (h : Synced w) (draws : Draws) (now₀ now₁ : Int)
    (hhandler : w.handler = .scheduled) : Continues w (start w.session draws now₀ now₁) := by
  have hidle := h.awaits
  rw [hhandler] at hidle
  refine ⟨running_eq_nil hidle, by simp [hhandler, failed], start_toGameSession _ _ _ _,
    start_silent _ _ _ _, ?_⟩
  rcases h.assembled with hfull | ⟨hstate, _, hsteps⟩
  · exact .inl hfull
  · simp only [start, hstate, handleWaitingForPlayers]
    split
    case isFalse => exact .inr ⟨hstate, rfl, hsteps⟩
    case isTrue hjoined =>
        left
        have hle := h.joined_le
        rw [GameSession.requiredClientsHaveJoined, decide_eq_true_eq, h.required,
          h.members] at hjoined
        split at hjoined
        · simp at hjoined
        · omega

theorem synced_handleState (h : Synced w) (draws : Draws) (now₀ now₁ : Int)
    (hhandler : w.handler = .scheduled) : Synced (w.handleState draws now₀ now₁) :=
  synced_perform
    (w := { w with past := w.log, phase := [.handlerStarted w.session.state] })
    { h with } { continues_start h draws now₀ now₁ hhandler with }

theorem synced_move {w' : World} (h : Synced w) (hmove : Move w w') : Synced w' := by
  cases hmove with
  | sockets client => exact { h with }
  | ended => exact synced_endSession h
  | joined c hjoinable hnew => exact (synced_joined h hjoinable hnew).2
  | stopped frame b hhandler hrejected =>
      have hfull := h.assembled.resolve_right fun hwaiting => by simp [hhandler] at hwaiting
      exact { h with assembled := .inl hfull, awaits := trivial }
  | accepted pre post a b hsplit hcall => exact synced_call h hsplit (sound_start true) _
  | refused pre post a b hsplit hcall =>
      simpa using synced_call h hsplit (sound_start false) []
  | kept pre post a accepted e e' hsplit hcall hsound => simpa using synced_call h hsplit hsound []
  | resolved pre post a e rx now hsplit hcall => exact synced_resolved h hsplit rx now
  | rejected pre post a accepted e hsplit hcall => exact synced_rejected h hsplit

end Preservation

/-- What holds initially and is kept where the state handler is called or resumed
and by moves holds in every reachable state. -/
theorem invariant_of_moves {I : World → Prop} (hinit : I init)
    (hstart : ∀ w draws now₀ now₁, Synced w → I w → w.handler = .scheduled →
      I (w.handleState draws now₀ now₁))
    (hresume : ∀ w frame b now, Synced w → I w → w.handler = .suspended frame b →
      Continues w (Handlers.resume w.session now frame) →
      I (w.perform (Handlers.resume w.session now frame)))
    (hmove : ∀ w w', Synced w → I w → Move w w' → I w') {w : World}
    (h : Reachable (Fires step) init w) : Synced w ∧ I w := by
  refine Reachable.invariant (I := fun w => Synced w ∧ I w) ⟨synced_init, hinit⟩ ?_ h
  rintro t l u ⟨hsynced, hI⟩ hstep
  rcases step_cases hsynced.toExclusive hstep with ⟨draws, now₀, now₁, _, hhandler, rfl⟩ |
    ⟨frame, b, now, hhandler, hpending, hrejected, rfl⟩ | hpath
  · exact ⟨synced_handleState hsynced draws now₀ now₁ hhandler,
      hstart t draws now₀ now₁ hsynced hI hhandler⟩
  · have hcontinues := continues_resume hsynced now hhandler hpending hrejected
    exact ⟨synced_perform hsynced hcontinues,
      hresume t frame b now hsynced hI hhandler hcontinues⟩
  · clear hstep
    induction hpath with
    | refl => exact ⟨hsynced, hI⟩
    | tail _ hlast ih => exact ⟨synced_move ih.1 hlast, hmove _ _ ih.1 ih.2 hlast⟩

theorem synced_reachable {w : World} (h : Reachable (Fires step) init w) : Synced w :=
  (invariant_of_moves (I := fun _ => True) trivial
    (fun _ _ _ _ _ _ _ => trivial) (fun _ _ _ _ _ _ _ _ => trivial)
    (fun _ _ _ _ _ => trivial) h).1

/-! ## Steps of the session are rounds of its clients -/

def roundEvent : Event → Option (Rounds.Event ClientId Byte)
  | .begun n cs _ => some (.begun n cs)
  | .sent n c b => some (.acted n c b)
  | .completed n c => some (.completed n c)
  | .failed n c => some (.failed n c)
  | _ => none

def group (w : World) : Rounds.Group ClientId Byte where
  joined := w.joined
  dissolved := w.session.ended
  rounds := w.steps
  working := {c | c ∈ w.working}
  failed := failed w.handler
  log := w.log.filterMap roundEvent

theorem roundEvent_of_silent {e : Event} (h : e.silent = true) : roundEvent e = none := by
  cases e <;> first | rfl | simp [Event.silent] at h

theorem filterMap_roundEvent_silent {events : List Event} (h : ∀ e ∈ events, e.silent = true) :
    events.filterMap roundEvent = [] := by
  rw [List.filterMap_eq_nil_iff]
  exact fun e he => roundEvent_of_silent (h e he)

theorem group_endSession (w : World) :
    group w.endSession = { group w with dissolved := true } := by
  unfold World.endSession
  split
  case isTrue hended => simp [group, hended]
  case isFalse => simp [group, World.log, roundEvent, World.working]

theorem steps_endSession (w : World) : Rounds.Steps (group w) (group w.endSession) := by
  rw [group_endSession]
  exact .single .dissolve

/-- The callbacks of a step that exchanges nothing return at once. -/
theorem steps_completeAll (g : Rounds.Group ClientId Byte) {n : Nat} (hn : n + 1 = g.rounds)
    (cs : List ClientId) : Rounds.Steps g { g with
      working := {c | c ∈ g.working ∧ c ∉ cs}
      log := g.log ++ cs.map (.completed n) } := by
  induction cs generalizing g with
  | nil =>
      simp only [List.not_mem_nil, not_false_eq_true, and_true, List.map_nil, List.append_nil]
      exact .refl
  | cons c cs ih =>
      have hfirst : Rounds.Step g
          { g with working := g.working \ {c}, log := g.log ++ [.completed n c] } := .complete hn
      have hrest := ih { g with working := g.working \ {c}, log := g.log ++ [.completed n c] } hn
      have hset : {c' | c' ∈ g.working \ {c} ∧ c' ∉ cs} =
          {c' | c' ∈ g.working ∧ c' ∉ c :: cs} := by
        ext c'
        simp [and_assoc]
      simp only [hset, List.append_assoc, List.singleton_append] at hrest
      exact .head hfirst hrest

theorem steps_perform {w : World} (h : Synced w) {r : Resumption} (hr : Continues w r) :
    Rounds.Steps (group w) (group (w.perform r)) := by
  have hidle : (group w).working = ∅ := by simp [group, World.working, hr.idle]
  have hmembers : (group w).members = r.session.clients := by
    rw [Rounds.Group.members, hr.base]
    exact h.members.symm
  have hrequired : r.session.requiredClientCount = 2 := by
    rw [hr.base]
    exact h.required
  have hsilent := filterMap_roundEvent_silent hr.silent
  have hstart := Rounds.Step.start (g := group w) hr.live hidle
  rw [hmembers] at hstart
  have hended : r.session.ended = w.session.ended := by rw [hr.base]
  have hlog : ∀ events, (w.past ++ (w.phase ++ r.events ++ events)).filterMap roundEvent =
      (group w).log ++ events.filterMap roundEvent := by
    intro events
    simp [group, World.log, hsilent]
  have hpaused : group { w with session := r.session, phase := w.phase ++ r.events } = group w := by
    refine Rounds.Group.ext rfl hended rfl rfl rfl ?_
    simpa [group, World.log] using hlog []
  unfold World.perform
  split
  case h_1 hdone =>
      rw [← hpaused]
      suffices hsame : group { w with session := r.session, phase := w.phase ++ r.events } = _ by
        exact hsame ▸ .refl
      exact Rounds.Group.ext rfl rfl rfl rfl hr.live rfl
  case h_2 frame hsleep =>
      rw [← hpaused]
      suffices hsame : group { w with session := r.session, phase := w.phase ++ r.events } = _ by
        exact hsame ▸ .refl
      exact Rounds.Group.ext rfl rfl rfl rfl hr.live rfl
  case h_3 task frame htask =>
      cases task with
      | forAllClients ops =>
          simp only [World.startTask, World.startCallbacks, hr.idle, List.nil_append]
          split
          case h_1 b hb =>
              refine .single ?_
              convert hstart using 1
              refine Rounds.Group.ext rfl hended rfl ?_ hr.live.symm (hlog _)
              simp only [group, World.working, flatMap_owners_callbackActivity]
          case h_2 hnone =>
              refine .head hstart ?_
              have hall := steps_completeAll (n := w.steps) { group w with
                rounds := w.steps + 1
                working := {p | p ∈ r.session.clients}
                log := (group w).log ++ [.begun w.steps r.session.clients] } rfl r.session.clients
              convert hall using 1
              · rfl
              · refine Rounds.Group.ext rfl hended rfl ?_ hr.live.symm ?_
                · simp [group, World.working]
                · refine (hlog _).trans ?_
                  simp [roundEvent, Function.comp_def]
      | forwardClientBytes =>
          simp only [World.startTask]
          split
          case h_1 c₁ c₂ hforwarded =>
              have hpair := GameSession.clients_eq_of_forwardedClients hrequired hforwarded
              rw [hpair] at hstart
              refine .single ?_
              convert hstart using 1
              refine Rounds.Group.ext rfl hended rfl ?_ hr.live.symm (hlog _)
              ext c
              simp [group, World.startForwarding, World.working, hr.idle, Activity.owners, or_comm]
          case h_2 =>
              rw [← hpaused]
              exact (steps_endSession _).tail .stop

/-- The callback of `c` has completed its part of the round. -/
theorem steps_completed {w w' : World} {n : Nat} {c : ClientId} (hstep : n + 1 = w.steps)
    (hjoined : w'.joined = w.joined) (hended : w'.session.ended = w.session.ended)
    (hsteps : w'.steps = w.steps) (hfailed : failed w'.handler = failed w.handler)
    (hworking : ∀ c', c' ∈ w'.working ↔ c' ∈ w.working ∧ c' ≠ c)
    (hlog : (group w').log = (group w).log ++ [.completed n c]) :
    Rounds.Steps (group w) (group w') := by
  have hcomplete := Rounds.Step.complete (g := group w) (p := c) hstep
  refine .single ?_
  convert hcomplete using 1
  exact Rounds.Group.ext hjoined hended hsteps (Set.ext hworking) hfailed hlog

theorem steps_resolved {w : World} (h : Synced w) {pre post : List Activity} {a : Activity}
    (hsplit : w.running = pre ++ a :: post) (rx : Byte) (now : Int) :
    Rounds.Steps (group w) (group ({ w with running := pre ++ post }.onResolved a rx now)) := by
  have hstep : a.step + 1 = w.steps := h.step a (by simp [hsplit])
  have hmem := Synced.mem_working_iff hsplit
  have hnodup := h.rest_nodup hsplit
  obtain ⟨ops, b, hcont, _, heq⟩ | ⟨self, b₁, hcont, _, heq⟩ | ⟨hcont, heq⟩ :=
    onResolved_cases { w with running := pre ++ post } a rx now
  · suffices hsame : group w = _ by exact hsame ▸ .refl
    rw [heq]
    refine Rounds.Group.ext rfl rfl rfl ?_ rfl ?_
    · ext c
      have howners : a.owners = [a.client] := by simp [Activity.owners, hcont]
      simp only [group, Set.mem_ofPred_eq]
      rw [hmem, howners, World.working, flatMap_owners_append, List.mem_append, or_comm]
      rfl
    · simp [group, World.log, roundEvent]
  · have howners : a.owners = [a.client, self] := by simp [Activity.owners, hcont]
    rw [howners] at hnodup hmem
    simp only [List.cons_append, List.nil_append, List.nodup_cons, List.mem_cons, not_or] at hnodup
    rw [heq]
    refine steps_completed (c := a.client) hstep rfl rfl rfl (by simp) (fun c => ?_) ?_
    · rw [hmem, World.working, flatMap_owners_append, List.mem_append]
      simp only [Activity.owners, List.mem_cons, List.not_mem_nil, or_false]
      have hc : c ∈ (pre ++ post).flatMap Activity.owners → c ≠ a.client := by
        rintro hc rfl
        exact hnodup.1.2 hc
      have hself : c = self → c ≠ a.client := by
        rintro rfl heq'
        exact hnodup.1.1 heq'.symm
      tauto
    · simp only [group, World.log, List.append_assoc, List.filterMap_append]
      rfl
  · have howners : a.owners = [a.client] := by
      rcases hcont with hcont | ⟨ops, hcont, _⟩ <;> simp [Activity.owners, hcont]
    rw [howners] at hnodup hmem
    simp only [List.cons_append, List.nil_append, List.nodup_cons] at hnodup
    rw [heq]
    refine steps_completed (c := a.client) hstep rfl rfl rfl (by simp) (fun c => ?_) ?_
    · rw [hmem, List.mem_singleton]
      have hc : c ∈ (pre ++ post).flatMap Activity.owners → c ≠ a.client := by
        rintro hc rfl
        exact hnodup.1 hc
      simp only [World.working]
      tauto
    · simp only [group, World.log, List.append_assoc, List.filterMap_append]
      rfl

theorem steps_rejected {w : World} (h : Synced w) {pre post : List Activity} {a : Activity}
    (hsplit : w.running = pre ++ a :: post) :
    Rounds.Steps (group w) (group ({ w with running := pre ++ post }.onRejected a)) := by
  have hstep : a.step + 1 = w.steps := h.step a (by simp [hsplit])
  have hmem := Synced.mem_working_iff hsplit
  have hclient : a.client ∈ w.working := (hmem _).mpr (.inl (client_mem_owners a))
  have hrest : {c | c ∈ (pre ++ post).flatMap Activity.owners} ⊆ (group w).working :=
    fun c hc => (hmem c).mpr (.inr hc)
  have hfail := Rounds.Step.fail (g := group w) (p := a.client) hstep hrest
  refine .single ?_
  convert hfail using 1
  refine Rounds.Group.ext rfl rfl rfl rfl ?_ ?_
  · exact h.awaits.reject (List.ne_nil_of_mem hclient) hstep
  · simp [group, World.log, World.onRejected, roundEvent]

theorem steps_move {w w' : World} (h : Synced w) (hmove : Move w w') :
    Rounds.Steps (group w) (group w') := by
  cases hmove with
  | sockets client => exact .refl
  | ended => exact steps_endSession w
  | joined c hjoinable hnew =>
      exact .single (.join c (synced_joined h hjoinable hnew).1)
  | stopped frame b hhandler hrejected => exact .single .stop
  | accepted pre post a b hsplit hcall =>
      have ha : a ∈ w.running := by simp [hsplit]
      have hclient : a.client ∈ (group w).working :=
        List.mem_flatMap.mpr ⟨a, ha, client_mem_owners a⟩
      refine .single ?_
      convert Rounds.Step.act (g := group w) (x := b) hclient (h.step a ha) using 1
      refine Rounds.Group.ext rfl rfl rfl ?_ rfl ?_
      · simp [group, World.working, hsplit, Activity.owners]
      · simp [group, World.log, roundEvent]
  | refused pre post a b hsplit hcall =>
      suffices hsame : group w = _ by exact hsame ▸ .refl
      simp [group, World.working, World.log, hsplit, Activity.owners]
  | kept pre post a accepted e e' hsplit hcall hsound =>
      suffices hsame : group w = _ by exact hsame ▸ .refl
      simp [group, World.working, World.log, hsplit, Activity.owners]
  | resolved pre post a e rx now hsplit hcall => exact steps_resolved h hsplit rx now
  | rejected pre post a accepted e hsplit hcall => exact steps_rejected h hsplit

theorem steps_handleState {w : World} (h : Synced w) (draws : Draws) (now₀ now₁ : Int)
    (hhandler : w.handler = .scheduled) :
    Rounds.Steps (group w) (group (w.handleState draws now₀ now₁)) := by
  have hsame : group w = group { w with
      past := w.log, phase := [.handlerStarted w.session.state] } := by
    simp [group, World.log, World.working, roundEvent]
  rw [hsame]
  exact steps_perform (w := { w with past := w.log, phase := [.handlerStarted w.session.state] })
    { h with } { continues_start h draws now₀ now₁ hhandler with }

/-- A session refines the rounds of the group of its clients. -/
theorem steps_reachable {w : World} (h : Reachable (Fires step) init w) :
    Rounds.Steps {} (group w) := by
  refine (invariant_of_moves (I := fun w => Rounds.Steps {} (group w)) ?_ ?_ ?_ ?_ h).2
  · suffices hsame : ({} : Rounds.Group ClientId Byte) = _ by exact hsame ▸ .refl
    exact Rounds.Group.ext rfl rfl rfl (by simp [group, init, World.working]) rfl rfl
  · intro w draws now₀ now₁ hsynced hI hhandler
    exact hI.trans (steps_handleState hsynced draws now₀ now₁ hhandler)
  · intro w frame b now hsynced hI _ hcontinues
    exact hI.trans (steps_perform hsynced hcontinues)
  · intro w w' hsynced hI hmove
    exact hI.trans (steps_move hsynced hmove)

/-! ## Phase lock-step -/

/-- Part `a` of the property is about the exchanges of one client, part `b`
about the order of the steps. -/
structure InStep (w : World) : Prop where
  one_exchange : ∀ c, (w.running.filter (·.client = c)).length ≤ 1
  one_listener : ∀ c rx, (w.running.filter (·.hears w.client c rx)).length ≤ 1
  sent_in_step : ∀ pre post n c b, w.log = pre ++ .sent n c b :: post →
    w.joined.length = 2 ∧ c ∈ w.joined ∧ (∃ task, .begun n w.joined task ∈ pre) ∧
      ∀ m < n, (∃ task, .begun m w.joined task ∈ pre) ∧ ∀ c' ∈ w.joined, .completed m c' ∈ pre
  silent_after_failure : ∀ m c n c' b, .failed m c ∈ w.log → .sent n c' b ∈ w.log → n ≤ m

theorem begun_of_mem_filterMap {events : List Event} {n : Nat} {cs : List ClientId}
    (h : .begun n cs ∈ events.filterMap roundEvent) : ∃ task, .begun n cs task ∈ events := by
  obtain ⟨e, he, heq⟩ := List.mem_filterMap.mp h
  cases e with
  | begun n' cs' task =>
      obtain ⟨rfl, rfl⟩ : n' = n ∧ cs' = cs := by simpa [roundEvent] using heq
      exact ⟨task, he⟩
  | _ => simp [roundEvent] at heq

theorem completed_of_mem_filterMap {events : List Event} {n : Nat} {c : ClientId}
    (h : .completed n c ∈ events.filterMap roundEvent) : .completed n c ∈ events := by
  obtain ⟨e, he, heq⟩ := List.mem_filterMap.mp h
  cases e with
  | completed n' c' =>
      obtain ⟨rfl, rfl⟩ : n' = n ∧ c' = c := by simpa [roundEvent] using heq
      exact he
  | _ => simp [roundEvent] at heq

theorem Synced.joined_length (h : Synced w) (hsteps : w.steps ≠ 0) : w.joined.length = 2 :=
  h.assembled.resolve_right fun hwaiting => hsteps hwaiting.2.2

theorem session_in_step {w : World} (h : Reachable (Fires step) init w) : InStep w := by
  have hsynced := synced_reachable h
  have hrounds : Rounds.Inv (group w) := Rounds.inv_steps Rounds.inv_init (steps_reachable h)
  constructor
  case one_exchange =>
      intro c
      exact hsynced.length_filter_le_one c fun a _ ha => by simpa using ha
  case one_listener =>
      intro c rx
      refine hsynced.length_filter_le_one c fun a ha hears => ?_
      exact (accepted_of_hears (hsynced.sound a ha) hears).1
  case sent_in_step =>
      intro pre post n c b hlog
      have hsplit : (group w).log =
          pre.filterMap roundEvent ++ .acted n c b :: post.filterMap roundEvent := by
        simp [group, hlog, roundEvent]
      obtain ⟨hjoined, hbegun, hearlier⟩ := hrounds.lockstep _ _ _ _ _ hsplit
      have hlt : n < w.steps := hrounds.round_lt (.acted n c b) (by simp [hsplit])
      refine ⟨hsynced.joined_length (by omega), hjoined, begun_of_mem_filterMap hbegun, ?_⟩
      intro m hm
      obtain ⟨hbegun', hcompleted⟩ := hearlier m hm
      exact ⟨begun_of_mem_filterMap hbegun',
        fun c' hc' => completed_of_mem_filterMap (hcompleted c' hc')⟩
  case silent_after_failure =>
      intro m c n c' b hfailed hsent
      have hfailed' : .failed m c ∈ (group w).log := List.mem_filterMap.mpr ⟨_, hfailed, rfl⟩
      have hsent' : .acted n c' b ∈ (group w).log := List.mem_filterMap.mpr ⟨_, hsent, rfl⟩
      exact hrounds.round_le_of_failed hfailed' hsent'

/-- One exchange of the activity at index `i`, answered at once. -/
def exchange (i : Nat) (c : ClientId) (rx : Byte) : List Label :=
  [.write i true, .written i, .data c rx 0]

def draws₀ : Draws := fun _ => ⟨false, 0, 0⟩

/-- Two clients choose the music and go on to the difficulty, where the first
does not answer; the other's exchange had been completed before. -/
theorem session_in_step_difficulty :
    ∃ w, .sent 1 7 0x50 ∈ w.log ∧ .failed 1 7 ∈ w.log ∧ w.steps = 2 ∧ InStep w := by
  have hrun : (exec step init
      ([.join 7, .join 8, .tick draws₀ 0 0, .tick draws₀ 0 0] ++
        exchange 0 7 0x55 ++ exchange 0 8 0 ++ exchange 0 7 0x39 ++ exchange 0 8 0x55 ++
        exchange 0 7 0x50 ++ exchange 0 8 0x39 ++ exchange 0 8 0 ++
        [.resume 0, .tick draws₀ 0 0] ++ exchange 0 8 0x50 ++
        [.write 0 true, .timeout 0, .close 7])).any
      (fun w => Event.sent 1 7 0x50 ∈ w.log ∧ Event.failed 1 7 ∈ w.log ∧ w.steps = 2) = true := by
    decide
  obtain ⟨w, hw, hp⟩ := exists_reachable_of_exec hrun
  simp only [decide_eq_true_eq] at hp
  exact ⟨w, hp.1, hp.2.1, hp.2.2, session_in_step hw⟩

end GbPlay.Server.Tetris.Sync
