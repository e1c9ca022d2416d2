import GbPlay.Server.Tetris.Sync

/-!
# What the server sees of a session

A step of a session, other than that a client joins, leaves its clients and their
sockets as they are, or disconnects one client, or ends the session, or is the close
event of one client, which ends it too.
-/

namespace GbPlay.Server.Tetris.Effects

open GbPlay.Library GbPlay.Library.Runs
open GbPlay.Server.Client GbPlay.Server.Tetris.Data GbPlay.Server.Tetris.Handlers
open GbPlay.Server.Tetris.Model GbPlay.Server.Tetris.Moves GbPlay.Server.Tetris.Sync

/-- The same clients have joined, with the same sockets, and the session has not changed. -/
structure Agrees (w w' : World) : Prop where
  session : w'.session.toGameSession = w.session.toGameSession
  joined : w'.joined = w.joined
  socket : ∀ c, (w'.client c).socket = (w.client c).socket

variable {w w' : World} {l : Label}

theorem Agrees.refl (w : World) : Agrees w w := ⟨rfl, rfl, fun _ => rfl⟩

theorem Agrees.trans {w'' : World} (h : Agrees w w') (h' : Agrees w' w'') : Agrees w w'' :=
  ⟨h'.session.trans h.session, h'.joined.trans h.joined,
    fun c => (h'.socket c).trans (h.socket c)⟩

inductive Effect (w : World) : World → Prop
  | none {w' : World} : Agrees w w' → Effect w w'
  | disconnected {w' : World} (c : ClientId) : c ∈ w.joined →
      Agrees { w with client := disconnectAll w.client [c] } w' → Effect w w'
  | ended {w' : World} : Agrees w.endSession w' → Effect w w'
  | closed {w' : World} (c : ClientId) : c ∈ w.joined → (w.client c).socket ≠ .closed →
      Agrees { w with client := setSocket w.client c .closed }.endSession w' → Effect w w'

/-! ## Steps -/

theorem effect_perform {r : Resumption}
    (h : r.session.toGameSession = w.session.toGameSession) : Effect w (w.perform r) := by
  unfold World.perform
  split
  · exact .none ⟨h, rfl, fun _ => rfl⟩
  · exact .none ⟨h, rfl, fun _ => rfl⟩
  · rename_i task frame _
    cases task with
    | forAllClients ops =>
        simp only [World.startTask, World.startCallbacks]
        split
        · exact .none ⟨h, rfl, fun _ => rfl⟩
        · exact .none ⟨h, rfl, fun _ => rfl⟩
    | forwardClientBytes =>
        simp only [World.startTask]
        split
        · exact .none ⟨h, rfl, fun _ => rfl⟩
        · refine .ended ?_
          simp only [World.catchError, World.endSession, GameSession.disconnectedByEnd, h]
          split
          · exact ⟨h, rfl, fun _ => rfl⟩
          · exact ⟨rfl, rfl, fun _ => rfl⟩

theorem agrees_onResolved (w : World) (a : Activity) (rx : Byte) (now : Int) :
    Agrees w (w.onResolved a rx now) := by
  have hreceived (c : ClientId) :
      (received w.client a.client rx c).socket = (w.client c).socket := by
    by_cases hc : c = a.client
    · subst hc
      simp [received]
    · simp [received, hc]
  obtain ⟨ops, b, _, _, heq⟩ | ⟨self, b₁, _, _, heq⟩ | ⟨_, heq⟩ := onResolved_cases w a rx now
  · rw [heq]
    exact ⟨rfl, rfl, hreceived⟩
  · rw [heq]
    exact ⟨rfl, rfl, hreceived⟩
  · rw [heq]
    exact ⟨rfl, rfl, hreceived⟩

theorem agrees_foldl (f : World → Activity → World) (hf : ∀ w a, Agrees w (f w a))
    (as : List Activity) (w : World) : Agrees w (as.foldl f w) := by
  induction as generalizing w with
  | nil => exact .refl w
  | cons a as ih => exact (hf w a).trans (ih (f w a))

theorem socket_disconnectAll (h : Agrees w w') (cs : List ClientId) (c : ClientId) :
    (disconnectAll w'.client cs c).socket = (disconnectAll w.client cs c).socket := by
  simp only [disconnectAll]
  split
  · simp [h.socket c]
  · exact h.socket c

theorem agrees_endSession (h : Agrees w w') : Agrees w.endSession w'.endSession := by
  have hended : w'.session.ended = w.session.ended := by rw [h.session]
  unfold World.endSession
  rw [hended]
  split
  · exact h
  · refine ⟨?_, h.joined, fun c => ?_⟩
    · simp [h.session]
    · simp only [GameSession.disconnectedByEnd, h.session]
      exact socket_disconnectAll h _ c

theorem agrees_setSocket (h : Agrees w w') (c : ClientId) (s : SocketState) :
    Agrees { w with client := setSocket w.client c s }
      { w' with client := setSocket w'.client c s } := by
  refine ⟨h.session, h.joined, fun d => ?_⟩
  by_cases hd : d = c
  · subst hd
    simp [setSocket]
  · simp [setSocket, hd, h.socket d]

/-- What is not a part of the session's clients and their sockets has no effect. -/
theorem Effect.of_agrees {w'' : World} (h : Agrees w w') (heffect : Effect w' w'') :
    Effect w w'' := by
  cases heffect with
  | none hagrees => exact .none (h.trans hagrees)
  | disconnected c hc hagrees =>
      refine .disconnected c (h.joined ▸ hc) (.trans ?_ hagrees)
      exact ⟨h.session, h.joined, socket_disconnectAll h [c]⟩
  | ended hagrees => exact .ended ((agrees_endSession h).trans hagrees)
  | closed c hc hopen hagrees =>
      refine .closed c (h.joined ▸ hc) (h.socket c ▸ hopen) (.trans ?_ hagrees)
      exact agrees_endSession (agrees_setSocket h c .closed)

theorem effect_of_step (h : step w l = some w') (hjoin : ∀ c, l ≠ .join c)
    (hserved : ∀ a ∈ w.running, a.client ∈ w.joined) : Effect w w' := by
  cases l with
  | join c => exact absurd rfl (hjoin c)
  | tick draws now₀ now₁ =>
      obtain ⟨_, rfl⟩ := step_tick h
      have hstarted : Agrees w
          { w with past := w.log, phase := [.handlerStarted w.session.state] } :=
        ⟨rfl, rfl, fun _ => rfl⟩
      exact (effect_perform (start_toGameSession _ _ _ _)).of_agrees hstarted
  | resume now =>
      simp only [step] at h
      split at h
      case h_2 => cases h
      case h_1 frame b _ =>
          simp only [Option.ite_none_right_eq_some, Option.some.injEq] at h
          obtain ⟨_, rfl⟩ := h
          exact effect_perform (resume_toGameSession _ _ _)
  | reject =>
      simp only [step] at h
      split at h
      case h_2 => cases h
      case h_1 =>
          simp only [Option.ite_none_right_eq_some, Option.some.injEq] at h
          obtain ⟨_, rfl⟩ := h
          exact .ended ⟨rfl, rfl, fun _ => rfl⟩
  | write i accepted =>
      simp only [step] at h
      split at h
      case h_2 => cases h
      case h_1 a _ =>
          split at h
          case h_2 => cases h
          case h_1 b _ =>
              split at h
              · simp only [Option.ite_none_right_eq_some, Option.some.injEq] at h
                obtain ⟨_, rfl⟩ := h
                exact .none ⟨rfl, rfl, fun _ => rfl⟩
              · cases h
                exact .none ⟨rfl, rfl, fun _ => rfl⟩
  | written i =>
      simp only [step] at h
      split at h
      case h_2 => cases h
      case h_1 a _ =>
          split at h
          case h_2 => cases h
          case h_1 e _ =>
              simp only [Option.ite_none_left_eq_some, Option.some.injEq] at h
              obtain ⟨_, rfl⟩ := h
              exact .none ⟨rfl, rfl, fun _ => rfl⟩
  | writeError i =>
      simp only [step] at h
      split at h
      case h_2 => cases h
      case h_1 a hget =>
          split at h
          case h_2 => cases h
          case h_1 accepted e _ =>
              simp only [Option.ite_none_left_eq_some, Option.some.injEq] at h
              obtain ⟨_, rfl⟩ := h
              exact .disconnected a.client (hserved a (List.mem_of_getElem? hget))
                ⟨rfl, rfl, fun _ => rfl⟩
  | timeout i =>
      simp only [step] at h
      split at h
      case h_2 => cases h
      case h_1 a hget =>
          split at h
          case h_2 => cases h
          case h_1 accepted e _ =>
              cases h
              by_cases harmed : e.timeout = .armed
              · refine .disconnected a.client (hserved a (List.mem_of_getElem? hget))
                  ⟨rfl, rfl, fun c => ?_⟩
                by_cases hc : c = a.client
                · subst hc
                  simp [onTimeout, harmed, disconnectAll]
                · simp [disconnectAll, hc]
              · refine .none ⟨rfl, rfl, fun c => ?_⟩
                by_cases hc : c = a.client
                · subst hc
                  simp [onTimeout, harmed]
                · simp [hc]
  | data c rx now =>
      simp only [step, Option.ite_none_right_eq_some, Option.some.injEq] at h
      obtain ⟨_, rfl⟩ := h
      have hrest : Agrees w { w with running := w.running.filter (!·.hears w.client c rx) } :=
        ⟨rfl, rfl, fun _ => rfl⟩
      exact .none (hrest.trans (agrees_foldl _ (fun w a => agrees_onResolved w a rx now) _ _))
  | close c =>
      simp only [step, Option.ite_none_right_eq_some, Option.some.injEq] at h
      obtain ⟨⟨hopen, hc⟩, rfl⟩ := h
      refine .closed c hc hopen ?_
      have hrest : Agrees { w with client := setSocket w.client c .closed }
          { w with
            client := setSocket w.client c .closed
            running := w.running.filter (!·.losesSocket c) } := ⟨rfl, rfl, fun _ => rfl⟩
      exact (agrees_endSession hrest).trans
        (agrees_foldl World.onRejected (fun w a => ⟨rfl, rfl, fun _ => rfl⟩) _ _)

/-! ## Runs -/

theorem joined_endSession (w : World) : w.endSession.joined = w.joined := by
  unfold World.endSession
  split <;> rfl

theorem Effect.joined (h : Effect w w') : w'.joined = w.joined := by
  cases h with
  | none hagrees => exact hagrees.joined
  | disconnected c _ hagrees => exact hagrees.joined
  | ended hagrees => exact hagrees.joined.trans (joined_endSession w)
  | closed c _ _ hagrees => exact hagrees.joined.trans (joined_endSession _)

/-- The activities of a session serve the clients that have joined it. -/
theorem served_reachable (h : Reachable (Fires step) init w) :
    ∀ a ∈ w.running, a.client ∈ w.joined := by
  have hrounds : Rounds.Inv (group w) := Rounds.inv_steps Rounds.inv_init (steps_reachable h)
  intro a ha
  apply hrounds.working_joined
  exact List.mem_flatMap.mpr ⟨a, ha, client_mem_owners a⟩

theorem mem_joined_of_disconnectedByEnd (h : Synced w) {c : ClientId}
    (hc : c ∈ w.session.disconnectedByEnd) : c ∈ w.joined := by
  rw [GameSession.disconnectedByEnd, h.members] at hc
  by_cases hended : w.session.ended = true
  · simp [hended] at hc
  · simpa [hended] using hc

theorem socket_endSession (h : Synced w) {c : ClientId} (hc : c ∉ w.joined) :
    (w.endSession.client c).socket = (w.client c).socket := by
  unfold World.endSession
  split
  · rfl
  · have hother : c ∉ w.session.disconnectedByEnd :=
      fun hmem => hc (mem_joined_of_disconnectedByEnd h hmem)
    simp [disconnectAll, hother]

/-- A session has nothing to do with the sockets of clients that have not joined it. -/
theorem Effect.socket (h : Effect w w') (hsynced : Synced w) {c : ClientId} (hc : c ∉ w.joined) :
    (w'.client c).socket = (w.client c).socket := by
  cases h with
  | none hagrees => exact hagrees.socket c
  | disconnected d hd hagrees =>
      have hne : c ≠ d := fun heq => hc (heq ▸ hd)
      rw [hagrees.socket c]
      simp [disconnectAll, hne]
  | ended hagrees => rw [hagrees.socket c, socket_endSession hsynced hc]
  | closed d hd _ hagrees =>
      have hne : c ≠ d := fun heq => hc (heq ▸ hd)
      have hclosed : Synced { w with client := setSocket w.client d .closed } := { hsynced with }
      rw [hagrees.socket c, socket_endSession hclosed hc]
      simp [setSocket, hne]

theorem untouched_reachable (h : Reachable (Fires step) init w) :
    ∀ c ∉ w.joined, (w.client c).socket = .connected := by
  obtain ⟨ls, hrun⟩ := h
  induction hrun with
  | nil => exact fun _ _ => rfl
  | @snoc ls l t u hrun hstep ih =>
      intro c hc
      by_cases hjoin : ∃ d, l = .join d
      · obtain ⟨d, rfl⟩ := hjoin
        simp only [Fires, step, Option.ite_none_right_eq_some, Option.some.injEq] at hstep
        obtain ⟨_, rfl⟩ := hstep
        exact ih c fun hmem => hc (List.mem_append_left _ hmem)
      · have heffect := effect_of_step hstep (fun d hd => hjoin ⟨d, hd⟩)
          (served_reachable ⟨ls, hrun⟩)
        rw [heffect.joined] at hc
        rw [heffect.socket (synced_reachable ⟨ls, hrun⟩) hc]
        exact ih c hc

end GbPlay.Server.Tetris.Effects
