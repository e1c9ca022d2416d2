import GbPlay.Link.GameBoy
import GbPlay.Server.ExchangeByte
import GbPlay.Tools.PingPong

/-!
# The relay between two Game Boys

`forwardByte` of `client.ts`, called again and again by a session.  Which byte
it sends and which it reports is decided by the `lastReceivedByte` fields of the
two clients at the time of the read.
-/

namespace GbPlay.Server.Relay

open GbPlay.Server.Client GbPlay.Link.GameBoy GbPlay.Link.LockStep

/-- A client of the server and the Game Boy behind it. -/
structure Port (γ : Type*) where
  client : GameBoyClient
  device : Device γ

/-- `transfers` are the arguments of the calls of `onTransfer`. -/
structure State (γ₁ γ₂ : Type*) where
  client1 : Port γ₁
  client2 : Port γ₂
  transfers : List (Byte × Byte) := []

section

variable {γ γ₁ γ₂ : Type*} (gb : γ → Byte → γ × Byte) (gb₁ : γ₁ → Byte → γ₁ × Byte)
  (gb₂ : γ₂ → Byte → γ₂ × Byte)

/-- `exchangeByte`; `false` when it rejects. -/
def Port.exchangeByte (p : Port γ) (tx : Byte) (fate : Fate) : Port γ × Bool :=
  match p.device.exchange gb tx fate with
  | (device, some rx) =>
      ({ client := { p.client with lastReceivedByte := rx }, device := device }, true)
  | (device, none) => ({ p with device := device }, false)

/-- `client1.forwardByte(client2, onTransfer)`; `false` when it rejects. -/
def forwardByte (s : State γ₁ γ₂) (fates : Fate × Fate) : State γ₁ γ₂ × Bool :=
  match s.client2.exchangeByte gb₂ s.client1.client.lastReceivedByte fates.1 with
  | (other, false) => ({ s with client2 := other }, false)
  | (other, true) =>
      let s := { s with
        client2 := other
        transfers := s.transfers ++
          [(s.client1.client.lastReceivedByte, other.client.lastReceivedByte)] }
      let (client1, ok) := s.client1.exchangeByte gb₁ s.client2.client.lastReceivedByte fates.2
      ({ s with client1 := client1 }, ok)

/-- Calls of `forwardByte` one after the other, until one rejects. -/
def forwardBytes (s : State γ₁ γ₂) : List (Fate × Fate) → State γ₁ γ₂ × Bool
  | [] => (s, true)
  | fates :: rest =>
      match forwardByte gb₁ gb₂ s fates with
      | (s', true) => forwardBytes s' rest
      | (s', false) => (s', false)

end

def start {γ₁ γ₂ : Type*} (c₁ c₂ : GameBoyClient) (g₁ : γ₁) (g₂ : γ₂) : State γ₁ γ₂ :=
  { client1 := { client := c₁, device := { state := g₁ } }
    client2 := { client := c₂, device := { state := g₂ } } }

/-- `n` calls in which every exchange is answered. -/
def answered (n : Nat) : List (Fate × Fate) := List.replicate n (.answered, .answered)

variable {γ γ₁ γ₂ : Type*} {gb : γ → Byte → γ × Byte} {gb₁ : γ₁ → Byte → γ₁ × Byte}
  {gb₂ : γ₂ → Byte → γ₂ × Byte} {s : State γ₁ γ₂} {g₁ : γ₁} {g₂ : γ₂} {b₀ : Byte} {n : Nat}

/-- The client's field after an exchange is the one that `exchangeByte` itself leaves
when its promise settles so. -/
theorem lastReceivedByte_exchangeByte (p : Port γ) (tx : Byte) (fate : Fate)
    {events : List ExchangeByte.Event}
    (houtcome : (ExchangeByte.run p.client events).outcome =
      some (((p.device.exchange gb tx fate).2.map Outcome.resolved).getD .rejected)) :
    (p.exchangeByte gb tx fate).1.client.lastReceivedByte =
      (ExchangeByte.run p.client events).client.lastReceivedByte := by
  have hmatches := ExchangeByte.matches_run p.client events
  rw [hmatches.lastReceivedByte, ← hmatches.outcome, houtcome]
  cases fate <;> rfl

/-! ## Successful calls -/

/-- After `n` successful calls: every byte has been passed on once, in order, but the
last one of client 1, which is still to be. -/
structure Relayed (gb₁ : γ₁ → Byte → γ₁ × Byte) (gb₂ : γ₂ → Byte → γ₂ × Byte) (g₁ : γ₁) (g₂ : γ₂)
    (b₀ : Byte) (n : Nat) (s : State γ₁ γ₂) : Prop where
  genuine1 : s.client1.device.Genuine gb₁ g₁
  genuine2 : s.client2.device.Genuine gb₂ g₂
  replied1 : s.client1.device.replied.length = n
  replied2 : s.client2.device.replied.length = n
  delivered1 : s.client1.device.delivered = s.client2.device.replied
  delivered2 : s.client2.device.delivered ++ [s.client1.client.lastReceivedByte] =
    b₀ :: s.client1.device.replied
  transfers : s.transfers = s.client2.device.delivered.zip s.client2.device.replied

theorem relayed_start (gb₁ : γ₁ → Byte → γ₁ × Byte) (gb₂ : γ₂ → Byte → γ₂ × Byte)
    (c₁ c₂ : GameBoyClient) (g₁ : γ₁) (g₂ : γ₂) :
    Relayed gb₁ gb₂ g₁ g₂ c₁.lastReceivedByte 0 (start c₁ c₂ g₁ g₂) :=
  ⟨Device.genuine_init g₁, Device.genuine_init g₂, rfl, rfl, rfl, rfl, rfl⟩

theorem Relayed.length_delivered2 (h : Relayed gb₁ gb₂ g₁ g₂ b₀ n s) :
    s.client2.device.delivered.length = n := by
  have hlength := congrArg List.length h.delivered2
  simp only [List.length_append, List.length_cons, List.length_nil] at hlength
  have hreplied := h.replied1
  omega

theorem Relayed.forwardByte (h : Relayed gb₁ gb₂ g₁ g₂ b₀ n s) :
    Relayed gb₁ gb₂ g₁ g₂ b₀ (n + 1) (forwardByte gb₁ gb₂ s (.answered, .answered)).1 := by
  constructor
  case genuine1 => exact h.genuine1.transfer _
  case genuine2 => exact h.genuine2.transfer _
  case replied1 => simp [Relay.forwardByte, Port.exchangeByte, h.replied1]
  case replied2 => simp [Relay.forwardByte, Port.exchangeByte, h.replied2]
  case delivered1 => simp [Relay.forwardByte, Port.exchangeByte, h.delivered1]
  case delivered2 => simp [Relay.forwardByte, Port.exchangeByte, h.delivered2]
  case transfers =>
      have hlength : s.client2.device.delivered.length = s.client2.device.replied.length := by
        rw [h.length_delivered2, h.replied2]
      simp [Relay.forwardByte, Port.exchangeByte, h.transfers, List.zip_append hlength]

theorem forwardBytes_answered_succ (s : State γ₁ γ₂) (n : Nat) :
    forwardBytes gb₁ gb₂ s (answered (n + 1)) =
      forwardBytes gb₁ gb₂ (forwardByte gb₁ gb₂ s (.answered, .answered)).1 (answered n) := rfl

theorem forwardBytes_answered (s : State γ₁ γ₂) (n : Nat) :
    (forwardBytes gb₁ gb₂ s (answered n)).2 = true := by
  induction n generalizing s with
  | zero => rfl
  | succ n ih => rw [forwardBytes_answered_succ, ih]

theorem Relayed.forwardBytes (h : Relayed gb₁ gb₂ g₁ g₂ b₀ n s) (m : Nat) :
    Relayed gb₁ gb₂ g₁ g₂ b₀ (n + m) (forwardBytes gb₁ gb₂ s (answered m)).1 := by
  induction m generalizing n s with
  | zero => exact h
  | succ m ih =>
      rw [forwardBytes_answered_succ, Nat.add_succ, ← Nat.succ_add]
      exact ih h.forwardByte

/-! ## Calls that may reject -/

/-- What has been delivered and reported in `s` begins what has been in `s'`. -/
structure Extends (s' s : State γ₁ γ₂) : Prop where
  client1 : s'.client1.device.Extends s.client1.device
  client2 : s'.client2.device.Extends s.client2.device
  transfers : s.transfers <+: s'.transfers

theorem Extends.refl (s : State γ₁ γ₂) : Extends s s :=
  ⟨.refl _, .refl _, List.prefix_rfl⟩

theorem Extends.trans {s₁ s₂ s₃ : State γ₁ γ₂} (h : Extends s₃ s₂) (h' : Extends s₂ s₁) :
    Extends s₃ s₁ :=
  ⟨h.client1.trans h'.client1, h.client2.trans h'.client2, h'.transfers.trans h.transfers⟩

theorem extends_forwardByte (s : State γ₁ γ₂) :
    Extends (forwardByte gb₁ gb₂ s (.answered, .answered)).1 s :=
  ⟨Device.extends_transfer _ _, Device.extends_transfer _ _, List.prefix_append _ _⟩

theorem extends_forwardBytes (s : State γ₁ γ₂) (n : Nat) :
    Extends (forwardBytes gb₁ gb₂ s (answered n)).1 s := by
  induction n generalizing s with
  | zero => exact .refl s
  | succ n ih =>
      rw [forwardBytes_answered_succ]
      exact (ih _).trans (extends_forwardByte s)

/-- A call that rejects has done no more than one that succeeds. -/
theorem forwardByte_extends (s : State γ₁ γ₂) (fates : Fate × Fate) :
    Extends (forwardByte gb₁ gb₂ s (.answered, .answered)).1 (forwardByte gb₁ gb₂ s fates).1 := by
  obtain ⟨fate₂, fate₁⟩ := fates
  let rx := (s.client2.device.transfer gb₂ s.client1.client.lastReceivedByte).2
  have hdevice : ∀ fate, (forwardByte gb₁ gb₂ s (.answered, fate)).1.client1.device =
      (s.client1.device.exchange gb₁ rx fate).1 := by
    intro fate
    cases fate <;> rfl
  cases fate₂ with
  | answered =>
      refine ⟨?_, ?_, ?_⟩
      · rw [hdevice, hdevice]
        exact s.client1.device.transfer_extends_exchange rx fate₁
      · cases fate₁ <;> exact .refl _
      · cases fate₁ <;> exact List.prefix_rfl
  | unanswered => exact ⟨Device.extends_transfer _ _, .refl _, List.prefix_append _ _⟩
  | undelivered =>
      exact ⟨Device.extends_transfer _ _, Device.extends_transfer _ _, List.prefix_append _ _⟩

/-- A call succeeds only when both of its exchanges are answered. -/
theorem fates_of_forwardByte {fates : Fate × Fate} (h : (forwardByte gb₁ gb₂ s fates).2 = true) :
    fates = (.answered, .answered) := by
  obtain ⟨fate₂, fate₁⟩ := fates
  cases fate₂ <;> cases fate₁ <;> first | rfl | cases h

theorem forwardBytes_cons (s : State γ₁ γ₂) (fates : Fate × Fate) (rest : List (Fate × Fate)) :
    forwardBytes gb₁ gb₂ s (fates :: rest) =
      if (forwardByte gb₁ gb₂ s fates).2 then
        forwardBytes gb₁ gb₂ (forwardByte gb₁ gb₂ s fates).1 rest
      else ((forwardByte gb₁ gb₂ s fates).1, false) := by
  rw [forwardBytes]
  rcases forwardByte gb₁ gb₂ s fates with ⟨s', _ | _⟩ <;> rfl

theorem forwardBytes_extends (s : State γ₁ γ₂) (fates : List (Fate × Fate)) :
    Extends (forwardBytes gb₁ gb₂ s (answered fates.length)).1
      (forwardBytes gb₁ gb₂ s fates).1 := by
  induction fates generalizing s with
  | nil => exact .refl s
  | cons fates rest ih =>
      rw [List.length_cons, forwardBytes_answered_succ, forwardBytes_cons]
      split
      case isTrue hok =>
          rw [fates_of_forwardByte hok]
          exact ih _
      case isFalse => exact (extends_forwardBytes _ _).trans (forwardByte_extends s fates)

/-! ## The ping-pong loop of the bridge -/

/-- The loop is where the relay is: `gb1Byte` is what client 1 has sent last. -/
structure SameTranscript (s : State γ₁ γ₂) (t : Tools.PingPong.State γ₁ γ₂) : Prop where
  client1 : t.client1 = s.client1.device
  client2 : t.client2 = s.client2.device
  printed : t.printed = s.transfers

/-- One call and one iteration, with the same exchanges. -/
theorem SameTranscript.step (gb₁ : γ₁ → Byte → γ₁ × Byte) (gb₂ : γ₂ → Byte → γ₂ × Byte)
    {t : Tools.PingPong.State γ₁ γ₂} (h : SameTranscript s t)
    (hbyte : t.gb1Byte = s.client1.client.lastReceivedByte) (fates : Fate × Fate) :
    SameTranscript (forwardByte gb₁ gb₂ s fates).1
        (Tools.PingPong.iteration gb₁ gb₂ t fates).1 ∧
      (Tools.PingPong.iteration gb₁ gb₂ t fates).2 = (forwardByte gb₁ gb₂ s fates).2 ∧
      ((forwardByte gb₁ gb₂ s fates).2 = true →
        (Tools.PingPong.iteration gb₁ gb₂ t fates).1.gb1Byte =
          (forwardByte gb₁ gb₂ s fates).1.client1.client.lastReceivedByte) := by
  obtain ⟨gb1Byte, client1, client2, printed⟩ := t
  obtain ⟨hclient1, hclient2, hprinted⟩ := h
  subst hbyte hclient1 hclient2 hprinted
  obtain ⟨fate₂, fate₁⟩ := fates
  cases fate₂ with
  | answered => cases fate₁ <;> exact ⟨⟨rfl, rfl, rfl⟩, rfl, fun _ => rfl⟩
  | unanswered => exact ⟨⟨rfl, rfl, rfl⟩, rfl, fun h => nomatch h⟩
  | undelivered => exact ⟨⟨rfl, rfl, rfl⟩, rfl, fun h => nomatch h⟩

theorem SameTranscript.loop {t : Tools.PingPong.State γ₁ γ₂} (h : SameTranscript s t)
    (hbyte : t.gb1Byte = s.client1.client.lastReceivedByte) (fates : List (Fate × Fate)) :
    SameTranscript (forwardBytes gb₁ gb₂ s fates).1 (Tools.PingPong.loop gb₁ gb₂ t fates).1 ∧
      (Tools.PingPong.loop gb₁ gb₂ t fates).2 = (forwardBytes gb₁ gb₂ s fates).2 := by
  induction fates generalizing s t with
  | nil => exact ⟨h, rfl⟩
  | cons fates rest ih =>
      obtain ⟨hsame, hok, hbyte'⟩ := h.step gb₁ gb₂ hbyte fates
      rw [forwardBytes_cons, Tools.PingPong.loop_cons, hok]
      split
      case isTrue htrue => exact ih hsame (hbyte' htrue)
      case isFalse => exact ⟨hsame, rfl⟩

/-! ## The relay and the bridge -/

/-- What `n` successful calls have delivered and reported. -/
structure Delivered (gb₁ : γ₁ → Byte → γ₁ × Byte) (gb₂ : γ₂ → Byte → γ₂ × Byte) (g₁ : γ₁)
    (g₂ : γ₂) (b₀ : Byte) (n : Nat) (s : State γ₁ γ₂) : Prop where
  replies1 : s.client1.device.replied = replies gb₁ g₁ s.client1.device.delivered
  replies2 : s.client2.device.replied = replies gb₂ g₂ s.client2.device.delivered
  length1 : s.client1.device.replied.length = n
  length2 : s.client2.device.replied.length = n
  to_client2 : s.client2.device.delivered = (b₀ :: s.client1.device.replied).take n
  to_client1 : s.client1.device.delivered = s.client2.device.replied
  transfers : s.transfers = (b₀ :: s.client1.device.replied).zip s.client2.device.replied
  calls : s.transfers.length = n

theorem Relayed.delivered (h : Relayed gb₁ gb₂ g₁ g₂ b₀ n s) :
    Delivered gb₁ gb₂ g₁ g₂ b₀ n s := by
  have htake : s.client2.device.delivered = (b₀ :: s.client1.device.replied).take n := by
    rw [← h.delivered2, ← h.length_delivered2, List.take_left]
  have hzip : s.transfers = (b₀ :: s.client1.device.replied).zip s.client2.device.replied := by
    have hlength : s.client2.device.delivered.length = s.client2.device.replied.length := by
      rw [h.length_delivered2, h.replied2]
    calc s.transfers
        = s.client2.device.delivered.zip s.client2.device.replied := h.transfers
      _ = (s.client2.device.delivered ++ [s.client1.client.lastReceivedByte]).zip
            (s.client2.device.replied ++ []) := by
          rw [List.zip_append hlength, List.zip_nil_right, List.append_nil]
      _ = (b₀ :: s.client1.device.replied).zip s.client2.device.replied := by
          rw [h.delivered2, List.append_nil]
  constructor
  case replies1 => exact h.genuine1.replied
  case replies2 => exact h.genuine2.replied
  case length1 => exact h.replied1
  case length2 => exact h.replied2
  case to_client2 => exact htake
  case to_client1 => exact h.delivered1
  case transfers => exact hzip
  case calls => rw [h.transfers, List.length_zip, h.length_delivered2, h.replied2, Nat.min_self]

/-- The bridge with its Game Boys in slave mode, client 1 having sent `gb1Byte` last. -/
def bridge (gb1Byte : Byte) (g₁ : γ₁) (g₂ : γ₂) : Tools.PingPong.State γ₁ γ₂ :=
  { gb1Byte := gb1Byte, client1 := { state := g₁ }, client2 := { state := g₂ } }

/-- The relay passes every byte on to the other side, once, in order and one step
later; a run that fails has done the beginning of that; and the ping-pong loop of
the bridge does the same. -/
theorem relay_passes_bytes_on (gb₁ : γ₁ → Byte → γ₁ × Byte) (gb₂ : γ₂ → Byte → γ₂ × Byte)
    (c₁ c₂ : GameBoyClient) (g₁ : γ₁) (g₂ : γ₂) :
    (∀ n, (forwardBytes gb₁ gb₂ (start c₁ c₂ g₁ g₂) (answered n)).2 = true ∧
      Delivered gb₁ gb₂ g₁ g₂ c₁.lastReceivedByte n
        (forwardBytes gb₁ gb₂ (start c₁ c₂ g₁ g₂) (answered n)).1) ∧
    (∀ fates, Extends (forwardBytes gb₁ gb₂ (start c₁ c₂ g₁ g₂) (answered fates.length)).1
      (forwardBytes gb₁ gb₂ (start c₁ c₂ g₁ g₂) fates).1) ∧
    ∀ fates, SameTranscript (forwardBytes gb₁ gb₂ (start c₁ c₂ g₁ g₂) fates).1
        (Tools.PingPong.loop gb₁ gb₂ (bridge c₁.lastReceivedByte g₁ g₂) fates).1 ∧
      (Tools.PingPong.loop gb₁ gb₂ (bridge c₁.lastReceivedByte g₁ g₂) fates).2 =
        (forwardBytes gb₁ gb₂ (start c₁ c₂ g₁ g₂) fates).2 := by
  refine ⟨fun n => ⟨forwardBytes_answered _ n, ?_⟩, forwardBytes_extends _, fun fates => ?_⟩
  · have hrelayed := (relayed_start gb₁ gb₂ c₁ c₂ g₁ g₂).forwardBytes n
    rw [Nat.zero_add] at hrelayed
    exact hrelayed.delivered
  · have hsame : SameTranscript (start c₁ c₂ g₁ g₂) (bridge c₁.lastReceivedByte g₁ g₂) :=
      ⟨rfl, rfl, rfl⟩
    exact hsame.loop rfl fates

end GbPlay.Server.Relay
