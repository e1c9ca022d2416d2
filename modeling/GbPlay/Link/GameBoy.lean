import GbPlay.Link.LockStep

/-!
# A Game Boy at the end of an exchange

A Game Boy as the programs that exchange bytes with it see it: an arbitrary
state machine that answers every byte it is given, with the bytes it has been
given and those it has answered.
-/

namespace GbPlay.Link.GameBoy

open GbPlay.Server.Client GbPlay.Link.LockStep

structure Device (γ : Type*) where
  state : γ
  delivered : List Byte := []
  replied : List Byte := []

/-- What becomes of an exchange that is started.  One that fails may have
reached the Game Boy all the same. -/
inductive Fate
  | answered
  | unanswered
  | undelivered
  deriving DecidableEq, Repr

namespace Device

variable {γ : Type*} {gb : γ → Byte → γ × Byte} {g₀ : γ} {d : Device γ}

def transfer (gb : γ → Byte → γ × Byte) (d : Device γ) (tx : Byte) : Device γ × Byte :=
  let (g, rx) := gb d.state tx
  ({ state := g, delivered := d.delivered ++ [tx], replied := d.replied ++ [rx] }, rx)

/-- The byte that comes back; `none` when the exchange fails. -/
def exchange (gb : γ → Byte → γ × Byte) (d : Device γ) (tx : Byte) : Fate → Device γ × Option Byte
  | .answered => ((d.transfer gb tx).1, some (d.transfer gb tx).2)
  | .unanswered => ((d.transfer gb tx).1, none)
  | .undelivered => (d, none)

@[simp] theorem transfer_delivered (tx : Byte) :
    (d.transfer gb tx).1.delivered = d.delivered ++ [tx] := rfl

@[simp] theorem transfer_replied (tx : Byte) :
    (d.transfer gb tx).1.replied = d.replied ++ [(d.transfer gb tx).2] := rfl

@[simp] theorem exchange_answered (tx : Byte) :
    d.exchange gb tx .answered = ((d.transfer gb tx).1, some (d.transfer gb tx).2) := rfl

/-- The device has answered as its Game Boy does from `g₀` on. -/
structure Genuine (gb : γ → Byte → γ × Byte) (g₀ : γ) (d : Device γ) : Prop where
  state : d.state = stateAfter gb g₀ d.delivered
  replied : d.replied = replies gb g₀ d.delivered

theorem genuine_init (g₀ : γ) : Genuine gb g₀ { state := g₀ } := ⟨rfl, rfl⟩

theorem Genuine.transfer (h : Genuine gb g₀ d) (tx : Byte) :
    Genuine gb g₀ (d.transfer gb tx).1 := by
  constructor
  · rw [transfer_delivered, stateAfter_concat, ← h.state]
    rfl
  · rw [transfer_replied, transfer_delivered, replies_concat, ← h.state, ← h.replied]
    rfl

/-- `d'` has been given and has answered what `d` has, and perhaps more. -/
structure Extends (d' d : Device γ) : Prop where
  delivered : d.delivered <+: d'.delivered
  replied : d.replied <+: d'.replied

theorem Extends.refl (d : Device γ) : d.Extends d :=
  ⟨List.prefix_rfl, List.prefix_rfl⟩

theorem Extends.trans {d₁ d₂ d₃ : Device γ} (h : d₃.Extends d₂) (h' : d₂.Extends d₁) :
    d₃.Extends d₁ :=
  ⟨h'.delivered.trans h.delivered, h'.replied.trans h.replied⟩

theorem extends_transfer (d : Device γ) (tx : Byte) : (d.transfer gb tx).1.Extends d :=
  ⟨List.prefix_append _ _, List.prefix_append _ _⟩

/-- A failed exchange has done no more than a successful one. -/
theorem transfer_extends_exchange (d : Device γ) (tx : Byte) (fate : Fate) :
    (d.transfer gb tx).1.Extends (d.exchange gb tx fate).1 := by
  cases fate with
  | answered => exact .refl _
  | unanswered => exact .refl _
  | undelivered => exact extends_transfer d tx

end Device

end GbPlay.Link.GameBoy
