import GbPlay.Link.GameBoy

/-!
# The ping-pong loop of the TCP serial bridge

`GBSerialTCPServer.run` once both Game Boys are in slave mode (`gb_tcp.py`).
The loop runs until an exchange raises, so a run is the list of what becomes of
its exchanges.
-/

namespace GbPlay.Tools.PingPong

open GbPlay.Server.Client GbPlay.Link.GameBoy

/-- `printed` is what the loop prints when it traces. -/
structure State (γ₁ γ₂ : Type*) where
  gb1Byte : Byte
  client1 : Device γ₁
  client2 : Device γ₂
  printed : List (Byte × Byte) := []

variable {γ₁ γ₂ : Type*}

/-- One iteration; `false` when one of its exchanges has raised. -/
def iteration (gb₁ : γ₁ → Byte → γ₁ × Byte) (gb₂ : γ₂ → Byte → γ₂ × Byte) (t : State γ₁ γ₂)
    (fates : Fate × Fate) : State γ₁ γ₂ × Bool :=
  match t.client2.exchange gb₂ t.gb1Byte fates.1 with
  | (client2, none) => ({ t with client2 := client2 }, false)
  | (client2, some gb2Byte) =>
      let t := { t with client2 := client2, printed := t.printed ++ [(t.gb1Byte, gb2Byte)] }
      match t.client1.exchange gb₁ gb2Byte fates.2 with
      | (client1, none) => ({ t with client1 := client1 }, false)
      | (client1, some gb1Byte) => ({ t with client1 := client1, gb1Byte := gb1Byte }, true)

def loop (gb₁ : γ₁ → Byte → γ₁ × Byte) (gb₂ : γ₂ → Byte → γ₂ × Byte) (t : State γ₁ γ₂) :
    List (Fate × Fate) → State γ₁ γ₂ × Bool
  | [] => (t, true)
  | fates :: rest =>
      match iteration gb₁ gb₂ t fates with
      | (t', true) => loop gb₁ gb₂ t' rest
      | (t', false) => (t', false)

theorem loop_cons {gb₁ : γ₁ → Byte → γ₁ × Byte} {gb₂ : γ₂ → Byte → γ₂ × Byte} (t : State γ₁ γ₂)
    (fates : Fate × Fate) (rest : List (Fate × Fate)) :
    loop gb₁ gb₂ t (fates :: rest) =
      if (iteration gb₁ gb₂ t fates).2 then loop gb₁ gb₂ (iteration gb₁ gb₂ t fates).1 rest
      else ((iteration gb₁ gb₂ t fates).1, false) := by
  rw [loop]
  rcases iteration gb₁ gb₂ t fates with ⟨t', _ | _⟩ <;> rfl

end GbPlay.Tools.PingPong
