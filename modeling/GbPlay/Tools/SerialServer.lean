import GbPlay.Arduino.GbToSerial
import GbPlay.Library.Machines
import GbPlay.Library.Sessions

/-!
# A server that reaches a Game Boy over serial

`SerialLinkCableServer`: `run` waits for the byte that the adapter writes when it has
started.  Then it calls its data handler with every byte that the Game Boy has answered,
`None` before the first, and writes what the handler returns.

Nothing but the calls, newest first, is not in the source.
-/

namespace GbPlay.Tools.SerialServer

open GbPlay.Arduino GbPlay.Library.Histories GbPlay.Library.Machines GbPlay.Library.Relays
  GbPlay.Library.Runs GbPlay.Library.Sessions GbPlay.Server.Client

/-- A data handler may raise, and has a state. -/
abbrev DataHandler (σ ε : Type*) := σ → Option Byte → Except ε (σ × Byte)

/-- Where `run` stands. -/
inductive Main (ε : Type*)
  /-- at the first `link.read` -/
  | waking
  | calling (response : Option Byte)
  | writing (toSend : Byte)
  | reading
  | raised (e : ε)
  deriving DecidableEq, Repr

structure SerialLinkCableServer (σ ε γ : Type*) where
  main : Main ε := .waking
  running : Bool := true
  handler : σ
  calls : List (Call σ (Option Byte) Byte) := []
  link : Sketch γ

inductive Label
  | wake
  | call
  | write
  | read
  /-- The serial port raises. -/
  | fail
  | link (l : SketchLabel)
  deriving DecidableEq, Repr

variable {σ ε γ : Type*}

def step (f : DataHandler σ ε) (game : Game γ) (s : SerialLinkCableServer σ ε γ) :
    Label → Option (SerialLinkCableServer σ ε γ)
  | .wake =>
      match s.running, s.main, (adapter game).answer s.link with
      | true, .waking, some (_, link) => some { s with main := .calling none, link }
      | _, _, _ => none
  | .call =>
      match s.running, s.main with
      | true, .calling response =>
          match f s.handler response with
          | .ok (handler, toSend) => some { s with
              main := .writing toSend
              handler
              calls := ⟨s.handler, response, toSend, handler⟩ :: s.calls }
          | .error e => some { s with main := .raised e }
      | _, _ => none
  | .write =>
      match s.running, s.main with
      | true, .writing toSend =>
          some { s with main := .reading, link := (adapter game).ask s.link toSend }
      | _, _ => none
  | .read =>
      match s.running, s.main, (adapter game).answer s.link with
      | true, .reading, some (response, link) =>
          some { s with main := .calling (some response), link }
      | _, _, _ => none
  | .fail => if s.running then some { s with running := false } else none
  | .link l => (sketchStep game s.link l).map fun link => { s with link }

def start (handler : σ) (board : Board γ) : SerialLinkCableServer σ ε γ :=
  { handler, link := { board } }

/-- The Game Boy at the adapter. -/
def SerialLinkCableServer.gameBoy (s : SerialLinkCableServer σ ε γ) : γ := s.link.board.port.state

/-- What the Game Boy has answered to the last byte that the handler has returned. -/
def lastAnswer (game : Game γ) (g₀ : γ) (calls : List (Call σ (Option Byte) Byte)) : Option Byte :=
  (answers game.device g₀ (returned calls)).getLast?

def Fed (game : Game γ) (g₀ : γ) (c : Call σ (Option Byte) Byte)
    (past : List (Call σ (Option Byte) Byte)) : Prop :=
  c.input = lastAnswer game g₀ past

/-! ## What a step can do -/

section Server

variable {f : DataHandler σ ε} {game : Game γ} {g₀ : γ} {s₀ : σ} {board : Board γ}
  {s s' : SerialLinkCableServer σ ε γ} {l : Label} {t t' : Sketch γ} {main : Main ε}
  {handler : σ} {c : Call σ (Option Byte) Byte} {calls past : List (Call σ (Option Byte) Byte)}

inductive Move (f : DataHandler σ ε) (game : Game γ) (s : SerialLinkCableServer σ ε γ) :
    Label → SerialLinkCableServer σ ε γ → Prop
  | wake {b : Byte} {link : Sketch γ} : s.running = true → s.main = .waking →
      (adapter game).answer s.link = some (b, link) →
      Move f game s .wake { s with main := .calling none, link }
  | call {response : Option Byte} {handler : σ} {toSend : Byte} : s.running = true →
      s.main = .calling response → f s.handler response = .ok (handler, toSend) →
      Move f game s .call { s with
        main := .writing toSend, handler
        calls := ⟨s.handler, response, toSend, handler⟩ :: s.calls }
  | raise {response : Option Byte} {e : ε} : s.running = true → s.main = .calling response →
      f s.handler response = .error e → Move f game s .call { s with main := .raised e }
  | write {toSend : Byte} : s.running = true → s.main = .writing toSend →
      Move f game s .write { s with main := .reading, link := (adapter game).ask s.link toSend }
  | read {response : Byte} {link : Sketch γ} : s.running = true → s.main = .reading →
      (adapter game).answer s.link = some (response, link) →
      Move f game s .read { s with main := .calling (some response), link }
  | fail : s.running = true → Move f game s .fail { s with running := false }
  | link {l : SketchLabel} {link : Sketch γ} : (adapter game).step s.link l = some link →
      Move f game s (.link l) { s with link }

theorem move_of_step (h : step f game s l = some s') : Move f game s l s' := by
  cases l with
  | wake =>
      simp only [step] at h
      split at h <;> cases h
      exact .wake ‹_› ‹_› ‹_›
  | call =>
      simp only [step] at h
      split at h
      · split at h <;> cases h
        · exact .call ‹_› ‹_› ‹_›
        · exact .raise ‹_› ‹_› ‹_›
      · cases h
  | write =>
      simp only [step] at h
      split at h <;> cases h
      exact .write ‹_› ‹_›
  | read =>
      simp only [step] at h
      split at h <;> cases h
      exact .read ‹_› ‹_› ‹_›
  | fail =>
      simp only [step] at h
      split at h <;> cases h
      exact .fail ‹_›
  | link l =>
      obtain ⟨link, hlink, rfl⟩ := Option.map_eq_some_iff.mp h
      exact .link hlink

/-! ## The handler and the Game Boy take turns -/

/-- How far the last byte has come while `run` is at `main`. -/
inductive Stage (f : DataHandler σ ε) (game : Game γ) (g₀ : γ) (handler : σ) (link : Sketch γ) :
    List (Call σ (Option Byte) Byte) → Main ε → Prop
  | waking : SketchPhase game link (.answered g₀ 0) → Stage f game g₀ handler link [] .waking
  | calling {calls : List (Call σ (Option Byte) Byte)} :
      SketchPhase game link (.idle (after game.device g₀ (returned calls))) →
      Stage f game g₀ handler link calls (.calling (lastAnswer game g₀ calls))
  | writing {c : Call σ (Option Byte) Byte} {past : List (Call σ (Option Byte) Byte)} :
      SketchPhase game link (.idle (after game.device g₀ (returned past))) →
      Stage f game g₀ handler link (c :: past) (.writing c.output)
  | asked {c : Call σ (Option Byte) Byte} {past : List (Call σ (Option Byte) Byte)} :
      SketchPhase game link (.asked (after game.device g₀ (returned past)) c.output) →
      Stage f game g₀ handler link (c :: past) .reading
  | answered {c : Call σ (Option Byte) Byte} {past : List (Call σ (Option Byte) Byte)} :
      SketchPhase game link
        (.answered (game.device (after game.device g₀ (returned past)) c.output).1
          (game.device (after game.device g₀ (returned past)) c.output).2) →
      Stage f game g₀ handler link (c :: past) .reading
  | raised {calls : List (Call σ (Option Byte) Byte)} {e : ε} :
      f handler (lastAnswer game g₀ calls) = .error e →
      SketchPhase game link (.idle (after game.device g₀ (returned calls))) →
      Stage f game g₀ handler link calls (.raised e)

structure Inv (f : DataHandler σ ε) (game : Game γ) (s₀ : σ) (g₀ : γ)
    (s : SerialLinkCableServer σ ε γ) : Prop where
  made : Made f s₀ s.calls s.handler
  fed : Always (Fed game g₀) s.calls
  stage : Stage f game g₀ s.handler s.link s.calls s.main

theorem after_returned_cons (c : Call σ (Option Byte) Byte)
    (past : List (Call σ (Option Byte) Byte)) :
    after game.device g₀ (returned (c :: past)) =
      (game.device (after game.device g₀ (returned past)) c.output).1 := by
  rw [returned_cons, after_append]
  rfl

theorem lastAnswer_cons (c : Call σ (Option Byte) Byte)
    (past : List (Call σ (Option Byte) Byte)) :
    lastAnswer game g₀ (c :: past) =
      some (game.device (after game.device g₀ (returned past)) c.output).2 := by
  rw [lastAnswer, returned_cons, answers_append]
  simp [answers]

theorem Stage.link (h : Stage f game g₀ handler t calls main) {l : SketchLabel}
    (hstep : (adapter game).step t l = some t') : Stage f game g₀ handler t' calls main := by
  have hserves := serves_adapter game
  cases h with
  | waking hR => exact .waking (hserves.step_answered hR hstep)
  | calling hR => exact .calling (hserves.step_idle hR hstep)
  | writing hR => exact .writing (hserves.step_idle hR hstep)
  | asked hR =>
      rcases hserves.step_asked hR hstep with hR | hR
      · exact .asked hR
      · exact .answered hR
  | answered hR => exact .answered (hserves.step_answered hR hstep)
  | raised herror hR => exact .raised herror (hserves.step_idle hR hstep)

theorem Inv.move (h : Inv f game s₀ g₀ s) (hmove : Move f game s l s') :
    Inv f game s₀ g₀ s' := by
  obtain ⟨hmade, hfed, hstage⟩ := h
  have hserves := serves_adapter game
  cases hmove with
  | wake _ hmain hanswer =>
      generalize s.calls = calls at hmade hfed hstage ⊢
      rw [hmain] at hstage
      cases hstage with
      | waking hR =>
          obtain ⟨g, hp, hidle⟩ := hserves.answer hR hanswer
          cases hp
          exact ⟨hmade, hfed, .calling hidle⟩
  | call _ hmain hcall =>
      generalize s.calls = calls at hmade hfed hstage ⊢
      rw [hmain] at hstage
      cases hstage with
      | calling hR => exact ⟨.cons hmade hcall, ⟨rfl, hfed⟩, .writing hR⟩
  | raise _ hmain herror =>
      generalize s.calls = calls at hmade hfed hstage ⊢
      rw [hmain] at hstage
      cases hstage with
      | calling hR => exact ⟨hmade, hfed, .raised herror hR⟩
  | write _ hmain =>
      generalize s.calls = calls at hmade hfed hstage ⊢
      rw [hmain] at hstage
      cases hstage with
      | writing hR => exact ⟨hmade, hfed, .asked (hserves.ask hR _)⟩
  | @read response link _ hmain hanswer =>
      generalize s.calls = calls at hmade hfed hstage ⊢
      rw [hmain] at hstage
      cases hstage with
      | asked hR =>
          obtain ⟨_, hp, _⟩ := hserves.answer hR hanswer
          cases hp
      | @answered c past hR =>
          obtain ⟨g, hp, hidle⟩ := hserves.answer hR hanswer
          injection hp with hg hb
          subst hg hb
          rw [← after_returned_cons] at hidle
          refine ⟨hmade, hfed, ?_⟩
          simp only [← lastAnswer_cons]
          exact .calling hidle
  | fail => exact ⟨hmade, hfed, hstage⟩
  | link hstep => exact ⟨hmade, hfed, hstage.link hstep⟩

/-- In every run, the calls are those of the handler, and each is given what the Game Boy has
answered to what it has returned before. -/
theorem inv_of_reachable (hwaits : Waits game board g₀)
    (h : Reachable (Fires (step f game)) (start s₀ board) s) : Inv f game s₀ g₀ s := by
  refine h.invariant (I := Inv f game s₀ g₀) ?_ fun _ _ _ ht hfire => ht.move (move_of_step hfire)
  exact ⟨.nil, trivial, .waking (.booting rfl rfl rfl rfl hwaits)⟩

/-- The Game Boy has been clocked in all the bytes, or all but the last. -/
theorem Inv.gameBoy (h : Inv f game s₀ g₀ s) :
    ∃ clocked, s.gameBoy = after game.device g₀ clocked ∧
      (returned s.calls = clocked ∨ ∃ b, returned s.calls = clocked ++ [b]) := by
  have hstage := h.stage
  rw [SerialLinkCableServer.gameBoy]
  generalize s.calls = calls, s.main = main at hstage ⊢
  cases hstage with
  | waking hR => exact ⟨[], hR.state, .inl rfl⟩
  | calling hR => exact ⟨_, hR.state, .inl rfl⟩
  | raised _ hR => exact ⟨_, hR.state, .inl rfl⟩
  | writing hR => exact ⟨_, hR.state, .inr ⟨_, returned_cons _ _⟩⟩
  | asked hR => exact ⟨_, hR.state, .inr ⟨_, returned_cons _ _⟩⟩
  | answered hR => exact ⟨_, hR.state.trans (after_returned_cons _ _).symm, .inl rfl⟩

/-! ## The server goes on -/

/-- Neither the server nor the adapter has failed. -/
def AllWell (s : SerialLinkCableServer σ ε γ) : Prop := s.running = true ∧ s.link.running = true

def Label.isCall : Label → Bool
  | .call => true
  | _ => false

def Main.rank : Main ε → Nat
  | .waking | .reading => 1
  | .writing _ => 5
  | .calling _ | .raised _ => 0

/-- The steps until the next call. -/
def SerialLinkCableServer.rank (s : SerialLinkCableServer σ ε γ) : Nat :=
  s.main.rank + s.link.rank

theorem Inv.rank_le (h : Inv f game s₀ g₀ s) : s.rank ≤ 5 := by
  have hbound := bounded_adapter game
  have hstage := h.stage
  rw [SerialLinkCableServer.rank]
  generalize s.calls = calls, s.main = main at hstage ⊢
  cases hstage with
  | waking hR =>
      have hrank := hbound.answered hR
      simp only [Main.rank]
      omega
  | calling hR =>
      have hrank := hbound.idle hR
      simp only [Main.rank]
      omega
  | writing hR =>
      have hrank := hbound.idle hR
      simp only [Main.rank]
      omega
  | asked hR =>
      have hrank := hbound.asked hR
      simp only [Main.rank]
      omega
  | answered hR =>
      have hrank := hbound.answered hR
      simp only [Main.rank]
      omega
  | raised _ hR =>
      have hrank := hbound.idle hR
      simp only [Main.rank]
      omega

/-- Every step but a call brings the next call nearer. -/
theorem Move.rank (hmove : Move f game s l s') (hcall : l.isCall = false) (hwell : AllWell s') :
    AllWell s ∧ s'.rank < s.rank := by
  have hresponds := responds_adapter game
  obtain ⟨hrunning', hlink'⟩ := hwell
  cases hmove with
  | wake hrunning hmain hanswer =>
      obtain ⟨hrank, halive⟩ := hresponds.answer hanswer
      refine ⟨⟨hrunning, halive.mp hlink'⟩, ?_⟩
      simp only [SerialLinkCableServer.rank, hmain, Main.rank]
      omega
  | call => cases hcall
  | raise => cases hcall
  | @write toSend hrunning hmain =>
      obtain ⟨hrank, halive⟩ := hresponds.ask s.link toSend
      refine ⟨⟨hrunning, halive.mp hlink'⟩, ?_⟩
      simp only [SerialLinkCableServer.rank, hmain, Main.rank]
      omega
  | read hrunning hmain hanswer =>
      obtain ⟨hrank, halive⟩ := hresponds.answer hanswer
      refine ⟨⟨hrunning, halive.mp hlink'⟩, ?_⟩
      simp only [SerialLinkCableServer.rank, hmain, Main.rank]
      omega
  | fail => cases hrunning'
  | link hstep =>
      obtain ⟨halive, hrank⟩ := hresponds.step hstep hlink'
      exact ⟨⟨hrunning', halive⟩, Nat.add_lt_add_left hrank _⟩

/-- There are at most five steps from one call to the next. -/
theorem length_le_of_run {ls : List Label} (hinv : Inv f game s₀ g₀ s)
    (h : Run (Fires (step f game)) s ls s') (hcall : ∀ l ∈ ls, l.isCall = false)
    (hwell : AllWell s') : ls.length ≤ 5 := by
  have hpotential : AllWell s ∧ ls.length + s'.rank ≤ s.rank := by
    induction h with
    | nil => exact ⟨hwell, by simp⟩
    | @snoc ls l t u _ hfire ih =>
        rw [List.forall_mem_append] at hcall
        obtain ⟨hthen, hless⟩ :=
          (move_of_step hfire).rank (hcall.2 l List.mem_cons_self) hwell
        obtain ⟨hstart, hle⟩ := ih hcall.1 hthen
        refine ⟨hstart, ?_⟩
        rw [List.length_append, List.length_singleton]
        omega
  have hrank := hinv.rank_le
  omega

/-- As long as the handler does not raise, somebody can go on, and need not fail. -/
theorem Inv.goesOn (h : Inv f game s₀ g₀ s) (hwell : AllWell s) :
    (∃ e, s.main = .raised e) ∨ ∃ l s', step f game s l = some s' ∧ AllWell s' := by
  obtain ⟨hrunning, halive⟩ := hwell
  have hresponds := responds_adapter game
  have hready {p : Phase γ Byte Byte} (hR : SketchPhase game s.link p) (hbusy : ∀ g, p ≠ .idle g) :
      (∃ b link, (adapter game).answer s.link = some (b, link) ∧ link.running = true) ∨
        ∃ l s', step f game s l = some s' ∧ AllWell s' := by
    rcases hresponds.ready hR halive hbusy with hanswer | ⟨l, link, hstep, hlink⟩
    · obtain ⟨⟨b, link⟩, hanswer⟩ := Option.isSome_iff_exists.mp hanswer
      exact .inl ⟨b, link, hanswer, (hresponds.answer hanswer).2.mpr halive⟩
    · refine .inr ⟨.link l, { s with link }, ?_, hrunning, hlink⟩
      exact Option.map_eq_some_iff.mpr ⟨link, hstep, rfl⟩
  have hstage := h.stage
  cases hmain : s.main with
  | raised e => exact .inl ⟨e, rfl⟩
  | waking =>
      right
      rw [hmain] at hstage
      generalize s.calls = calls at hstage
      cases hstage with
      | waking hR =>
          rcases hready hR (by simp) with ⟨b, link, hanswer, hlink⟩ | hgoes
          · refine ⟨.wake, { s with main := .calling none, link }, ?_, hrunning, hlink⟩
            simp only [step, hrunning, hmain, hanswer]
          · exact hgoes
  | calling response =>
      right
      cases hcall : f s.handler response with
      | ok r =>
          obtain ⟨handler, toSend⟩ := r
          refine ⟨.call, { s with
            main := .writing toSend, handler
            calls := ⟨s.handler, response, toSend, handler⟩ :: s.calls }, ?_, hrunning, halive⟩
          simp only [step, hrunning, hmain, hcall]
      | error e =>
          refine ⟨.call, { s with main := .raised e }, ?_, hrunning, halive⟩
          simp only [step, hrunning, hmain, hcall]
  | writing toSend =>
      right
      refine ⟨.write, { s with main := .reading, link := (adapter game).ask s.link toSend }, ?_,
        hrunning, (hresponds.ask _ _).2.mpr halive⟩
      simp only [step, hrunning, hmain]
  | reading =>
      right
      have hread : (∃ b link, (adapter game).answer s.link = some (b, link) ∧
          link.running = true) → ∃ l s', step f game s l = some s' ∧ AllWell s' := by
        rintro ⟨b, link, hanswer, hlink⟩
        refine ⟨.read, { s with main := .calling (some b), link }, ?_, hrunning, hlink⟩
        simp only [step, hrunning, hmain, hanswer]
      rw [hmain] at hstage
      generalize s.calls = calls at hstage
      cases hstage with
      | asked hR => exact (hready hR (by simp)).elim hread id
      | answered hR => exact (hready hR (by simp)).elim hread id

end Server

end GbPlay.Tools.SerialServer
