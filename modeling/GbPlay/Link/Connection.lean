import GbPlay.Library.Relays
import GbPlay.Link.Model

/-!
# The far end of a connection

What the server has at the other end of a socket: the bytes on the way, the dongle's
`_handle_data_until_error` loop and its Game Boy.  It is the link of `Link.Model`
without the server, and without the numbers of the calls.
-/

namespace GbPlay.Link

open GbPlay.Library.Relays GbPlay.Link.Model GbPlay.Server.Client

/-- Where `_handle_data_until_error` is in its loop. -/
inductive Loop
  | reading
  | exchanging (rx : Byte)
  | writing (tx : Byte)
  | stopped
  deriving DecidableEq, Repr

structure Connection (γ : Type*) where
  down : List Byte := []
  up : List Byte := []
  loop : Loop := .reading
  gameBoy : γ

inductive ConnectionLabel
  | recv
  | recvError
  | spi
  | send
  | sendError
  deriving DecidableEq, Repr

variable {γ : Type*}

def connectionStep (gb : γ → Byte → γ × Byte) (s : Connection γ) :
    ConnectionLabel → Option (Connection γ)
  | .recv =>
      match s.loop, s.down with
      | .reading, rx :: down => some { s with loop := .exchanging rx, down }
      | _, _ => none
  | .recvError =>
      match s.loop with
      | .reading => some { s with loop := .stopped }
      | _ => none
  | .spi =>
      match s.loop with
      | .exchanging rx =>
          some { s with loop := .writing (gb s.gameBoy rx).2, gameBoy := (gb s.gameBoy rx).1 }
      | _ => none
  | .send =>
      match s.loop with
      | .writing tx => some { s with loop := .reading, up := s.up ++ [tx] }
      | _ => none
  | .sendError =>
      match s.loop with
      | .writing _ => some { s with loop := .stopped }
      | _ => none

def connection (gb : γ → Byte → γ × Byte) :
    Component (Connection γ) ConnectionLabel Byte Byte where
  ask s b := { s with down := s.down ++ [b] }
  step := connectionStep gb
  answer s :=
    match s.up with
    | [] => none
    | b :: up => some (b, { s with up })

/-! ## As a part of the link -/

def Loop.ofDongle : Dongle → Loop
  | .reading => .reading
  | .exchanging rx => .exchanging rx.byte
  | .writing tx => .writing tx.byte
  | .stopped => .stopped

def ofState (s : State γ) : Connection γ where
  down := s.down.map Frame.byte
  up := s.up.map Frame.byte
  loop := .ofDongle s.dongle
  gameBoy := s.gameBoy

def ConnectionLabel.toLabel : ConnectionLabel → Label
  | .recv => .recv
  | .recvError => .recvError
  | .spi => .spi
  | .send => .send
  | .sendError => .sendError

/-- The dongle of the link takes the same steps. -/
theorem connectionStep_ofState (gb : γ → Byte → γ × Byte) (s : State γ) (l : ConnectionLabel) :
    connectionStep gb (ofState s) l = (Model.step gb s l.toLabel).map ofState := by
  obtain ⟨client, call, calls, outcomes, down, up, dongle, gameBoy, transfers⟩ := s
  cases l with
  | recv => cases dongle <;> cases down <;> rfl
  | send =>
      cases dongle with
      | writing tx => simp [ofState, Loop.ofDongle, connectionStep, ConnectionLabel.toLabel,
          Model.step]
      | _ => rfl
  | _ => cases dongle <;> rfl

/-! ## One byte at a time -/

inductive ConnectionPhase (s : Connection γ) : Phase γ Byte Byte → Prop
  | idle : s.down = [] → s.up = [] → s.loop = .reading ∨ s.loop = .stopped →
      ConnectionPhase s (.idle s.gameBoy)
  | sent {b : Byte} : s.down = [b] → s.up = [] → s.loop = .reading ∨ s.loop = .stopped →
      ConnectionPhase s (.asked s.gameBoy b)
  | exchanging {b : Byte} : s.down = [] → s.up = [] → s.loop = .exchanging b →
      ConnectionPhase s (.asked s.gameBoy b)
  | writing {b : Byte} : s.down = [] → s.up = [] → s.loop = .writing b →
      ConnectionPhase s (.answered s.gameBoy b)
  | lost {b : Byte} : s.down = [] → s.up = [] → s.loop = .stopped →
      ConnectionPhase s (.answered s.gameBoy b)
  | replied {b : Byte} : s.down = [] → s.up = [b] → s.loop = .reading ∨ s.loop = .stopped →
      ConnectionPhase s (.answered s.gameBoy b)

theorem connectionPhase_state {s : Connection γ} {p : Phase γ Byte Byte}
    (h : ConnectionPhase s p) : s.gameBoy = p.state := by
  cases h <;> rfl

theorem connectionPhase_length {s : Connection γ} {p : Phase γ Byte Byte}
    (h : ConnectionPhase s p) : s.down.length + s.up.length ≤ 1 := by
  cases h <;> simp_all

/-- What the loop does next, and what it leaves alone. -/
inductive LoopMove (gb : γ → Byte → γ × Byte) (s : Connection γ) : Connection γ → Prop
  | recv {rx : Byte} {down : List Byte} : s.loop = .reading → s.down = rx :: down →
      LoopMove gb s { s with loop := .exchanging rx, down }
  | recvError : s.loop = .reading → LoopMove gb s { s with loop := .stopped }
  | spi {rx : Byte} : s.loop = .exchanging rx →
      LoopMove gb s { s with loop := .writing (gb s.gameBoy rx).2, gameBoy := (gb s.gameBoy rx).1 }
  | send {tx : Byte} : s.loop = .writing tx →
      LoopMove gb s { s with loop := .reading, up := s.up ++ [tx] }
  | sendError {tx : Byte} : s.loop = .writing tx → LoopMove gb s { s with loop := .stopped }

theorem loopMove_of_step {gb : γ → Byte → γ × Byte} {s s' : Connection γ} {l : ConnectionLabel}
    (h : connectionStep gb s l = some s') : LoopMove gb s s' := by
  cases l with
  | recv =>
      simp only [connectionStep] at h
      split at h <;> cases h
      rename_i hdown hloop
      exact .recv hdown hloop
  | recvError =>
      simp only [connectionStep] at h
      split at h <;> cases h
      exact .recvError ‹_›
  | spi =>
      simp only [connectionStep] at h
      split at h <;> cases h
      exact .spi ‹_›
  | send =>
      simp only [connectionStep] at h
      split at h <;> cases h
      exact .send ‹_›
  | sendError =>
      simp only [connectionStep] at h
      split at h <;> cases h
      exact .sendError ‹_›

theorem serves_connection (gb : γ → Byte → γ × Byte) :
    Serves (connection gb) gb ConnectionPhase where
  ask := by
    intro s g h b
    cases h with
    | idle hdown hup hloop => exact .sent (by simp [connection, hdown]) hup hloop
  step := by
    intro s s' p l h hstep
    cases loopMove_of_step hstep with
    | recv hloop hdown =>
        cases h with
        | sent hsent hup _ =>
            rw [hsent] at hdown
            cases hdown
            exact ⟨_, .inl rfl, .exchanging rfl hup rfl⟩
        | _ => simp_all
    | recvError hloop =>
        refine ⟨p, .inl rfl, ?_⟩
        cases h with
        | idle hdown hup _ => exact .idle hdown hup (.inr rfl)
        | sent hdown hup _ => exact .sent hdown hup (.inr rfl)
        | replied hdown hup _ => exact .replied hdown hup (.inr rfl)
        | _ => simp_all
    | spi hloop =>
        cases h with
        | exchanging hdown hup hrx =>
            rw [hrx] at hloop
            cases hloop
            exact ⟨_, .inr ⟨_, _, rfl, rfl⟩, .writing hdown hup rfl⟩
        | _ => simp_all
    | send hloop =>
        cases h with
        | writing hdown hup htx =>
            rw [htx] at hloop
            cases hloop
            exact ⟨_, .inl rfl, .replied hdown (by simp [hup]) (.inl rfl)⟩
        | _ => simp_all
    | sendError hloop =>
        cases h with
        | writing hdown hup _ => exact ⟨_, .inl rfl, .lost hdown hup rfl⟩
        | _ => simp_all
  answer := by
    intro s s' p b h hanswer
    cases h with
    | replied hdown hup hloop =>
        simp only [connection, hup, Option.some.injEq, Prod.mk.injEq] at hanswer
        obtain ⟨rfl, rfl⟩ := hanswer
        exact ⟨_, rfl, .idle hdown rfl hloop⟩
    | _ => simp_all [connection]

end GbPlay.Link
