import GbPlay.Server.Relay
import GbPlay.Server.Tetris.Handlers

/-!
# The selection of the difficulty

`handleDifficultySelection` up to the exit of its forwarding loop.  A call of
`forwardByte` receives a byte from each client, but its callback runs between
the two: what client 1 answers is reported by the next call only, and the test
of the loop does not look at it.
-/

namespace GbPlay.Server.Tetris.Difficulty

open GbPlay.Server.Client GbPlay.Server.Script GbPlay.Server.Tetris.Handlers
open GbPlay.Link.GameBoy

/-- One turn of the loop: the answers of the clients and when they arrive, the
clock reading of the callback, and the one of the test that follows. -/
structure Turn where
  client2Byte : Byte
  client2Time : Int
  callbackTime : Int
  client1Byte : Byte
  client1Time : Int
  now : Int
  deriving DecidableEq, Repr

def Turn.times (turn : Turn) : List Int :=
  [turn.client2Time, turn.callbackTime, turn.client1Time, turn.now]

/-- The loop at its test.  `received` has, for every byte received in the loop, when
it arrived and the bytes last received from the two clients from then on. -/
structure Loop where
  client1 : GameBoyClient
  client2 : GameBoyClient
  lastDifficultyChangeTime : Int
  client1Difficulty : Byte := 0
  client2Difficulty : Byte := 0
  received : List (Int × Byte × Byte) := []
  deriving DecidableEq, Repr

namespace Loop

def frame (l : Loop) : Frame :=
  .difficultyForward l.lastDifficultyChangeTime l.client1Difficulty l.client2Difficulty

def setFrame (l : Loop) : Frame → Loop
  | .difficultyForward lastDifficultyChangeTime client1Difficulty client2Difficulty =>
      { l with lastDifficultyChangeTime, client1Difficulty, client2Difficulty }
  | _ => l

/-- The bytes last received from the two clients. -/
def lastBytes (l : Loop) : Byte × Byte :=
  (l.client1.lastReceivedByte, l.client2.lastReceivedByte)

/-- The difficulties last recorded by the callback. -/
def recorded (l : Loop) : Byte × Byte := (l.client1Difficulty, l.client2Difficulty)

/-- `forwardClientBytes` with the callback of the loop. -/
def forward (l : Loop) (turn : Turn) : Loop :=
  let other := { l.client2 with lastReceivedByte := turn.client2Byte }
  let called := { l with client2 := other }.setFrame
    (onTransfer l.client1.lastReceivedByte other.lastReceivedByte turn.callbackTime l.frame)
  let this := { l.client1 with lastReceivedByte := turn.client1Byte }
  { called with
    client1 := this
    received := l.received ++
      [(turn.client2Time, l.client1.lastReceivedByte, other.lastReceivedByte),
        (turn.client1Time, this.lastReceivedByte, other.lastReceivedByte)] }

/-- The loop from its test at the reading `now` on; `some` when it makes these turns
and then leaves, with the reading of its last test. -/
def leave (s : TetrisGameSession) (l : Loop) (now : Int) : List Turn → Option (Loop × Int)
  | [] =>
      match (resume s now l.frame).next with
      | .step .forwardClientBytes _ => none
      | _ => some (l, now)
  | turn :: turns =>
      match (resume s now l.frame).next with
      | .step .forwardClientBytes frame => ((l.setFrame frame).forward turn).leave s turn.now turns
      | _ => none

end Loop

/-- The loop at its first test. -/
def start (client1 client2 : GameBoyClient) (now₀ : Int) : Loop :=
  { client1, client2, lastDifficultyChangeTime := now₀ }

variable {s : TetrisGameSession} {l l' : Loop} {turn : Turn} {turns : List Turn}
  {client1 client2 : GameBoyClient} {now₀ now₁ now exit : Int}

/-- The handler goes on as the test of the loop does that it starts with. -/
theorem handleDifficultySelection_next (s : TetrisGameSession) (client1 client2 : GameBoyClient)
    (now₀ now₁ : Int) :
    (handleDifficultySelection s now₀ now₁).next =
      (resume { s with client1WinCount := 0, client2WinCount := 0 } now₁
        (start client1 client2 now₀).frame).next := rfl

/-! ## One turn -/

namespace Loop

@[simp] theorem setFrame_frame (l : Loop) : l.setFrame l.frame = l := rfl

/-- The callback of the loop on the variables of the loop. -/
theorem onTransfer_frame (l : Loop) (b₁ b₂ : Byte) (callbackTime : Int) :
    onTransfer b₁ b₂ callbackTime l.frame =
      if (b₁, b₂) = l.recorded then l.frame else .difficultyForward callbackTime b₁ b₂ := by
  have hchange : (b₁ ≠ l.client1Difficulty ∨ b₂ ≠ l.client2Difficulty) ↔
      ¬ (b₁, b₂) = l.recorded := by
    rw [recorded, Prod.mk.injEq, not_and_or]
  show (if b₁ ≠ l.client1Difficulty ∨ b₂ ≠ l.client2Difficulty then _ else l.frame) = _
  rw [if_congr hchange rfl rfl, ite_not]

@[simp] theorem forward_client1 (l : Loop) (turn : Turn) :
    (l.forward turn).client1 = { l.client1 with lastReceivedByte := turn.client1Byte } := rfl

@[simp] theorem forward_client2 (l : Loop) (turn : Turn) :
    (l.forward turn).client2 = { l.client2 with lastReceivedByte := turn.client2Byte } := by
  rw [forward, onTransfer_frame]
  split <;> rfl

@[simp] theorem forward_received (l : Loop) (turn : Turn) :
    (l.forward turn).received = l.received ++
      [(turn.client2Time, l.client1.lastReceivedByte, turn.client2Byte),
        (turn.client1Time, turn.client1Byte, turn.client2Byte)] := rfl

/-- Whether it is a change or not, the pair of the callback is recorded after it. -/
@[simp] theorem forward_recorded (l : Loop) (turn : Turn) :
    (l.forward turn).recorded = (l.client1.lastReceivedByte, turn.client2Byte) := by
  rw [forward, onTransfer_frame]
  split
  case isTrue hsame => exact hsame.symm
  case isFalse => rfl

theorem forward_changeTime (l : Loop) (turn : Turn) :
    (l.forward turn).lastDifficultyChangeTime =
      if (l.client1.lastReceivedByte, turn.client2Byte) = l.recorded then
        l.lastDifficultyChangeTime
      else turn.callbackTime := by
  rw [forward, onTransfer_frame]
  split <;> rfl

end Loop

/-- A turn does to the clients what a call of the relay's `forwardByte` does whose
exchanges are answered so. -/
theorem forward_relay {γ₁ γ₂ : Type*} {gb₁ : γ₁ → Byte → γ₁ × Byte}
    {gb₂ : γ₂ → Byte → γ₂ × Byte} {r : Relay.State γ₁ γ₂} (h₁ : r.client1.client = l.client1)
    (h₂ : r.client2.client = l.client2)
    (hanswer₂ : (gb₂ r.client2.device.state l.client1.lastReceivedByte).2 = turn.client2Byte)
    (hanswer₁ : (gb₁ r.client1.device.state turn.client2Byte).2 = turn.client1Byte) :
    (Relay.forwardByte gb₁ gb₂ r (.answered, .answered)).1.client1.client =
        (l.forward turn).client1 ∧
      (Relay.forwardByte gb₁ gb₂ r (.answered, .answered)).1.client2.client =
        (l.forward turn).client2 ∧
      (Relay.forwardByte gb₁ gb₂ r (.answered, .answered)).1.transfers =
        r.transfers ++ [(l.forward turn).recorded] := by
  rw [Loop.forward_client1, Loop.forward_client2, Loop.forward_recorded, ← hanswer₁, ← hanswer₂,
    ← h₁, ← h₂]
  exact ⟨rfl, rfl, rfl⟩

/-! ## Leaving the loop -/

theorem resume_next (s : TetrisGameSession) (l : Loop) (now : Int) :
    (resume s now l.frame).next =
      if now - l.lastDifficultyChangeTime < 5000 then .step .forwardClientBytes l.frame
      else .step (.forAllClients confirmDifficulty) .difficultyConfirm := by
  show (difficultyLoop s _ _ _ now).next = _
  unfold difficultyLoop
  split <;> rfl

theorem leave_nil (s : TetrisGameSession) (l : Loop) (now : Int) :
    l.leave s now [] = if now - l.lastDifficultyChangeTime < 5000 then none else some (l, now) := by
  rw [Loop.leave, resume_next]
  by_cases htest : now - l.lastDifficultyChangeTime < 5000
  · simp [htest]
  · simp [htest]

theorem leave_cons (s : TetrisGameSession) (l : Loop) (now : Int) (turn : Turn)
    (turns : List Turn) :
    l.leave s now (turn :: turns) =
      if now - l.lastDifficultyChangeTime < 5000 then (l.forward turn).leave s turn.now turns
      else none := by
  rw [Loop.leave, resume_next]
  by_cases htest : now - l.lastDifficultyChangeTime < 5000
  · simp [htest]
  · simp [htest]

/-- The reading of the last test. -/
def lastTest (now : Int) (turns : List Turn) : Int :=
  ((turns.getLast?).map Turn.now).getD now

/-- The loop makes all its turns, and leaves when nothing has changed for 5000 ms. -/
theorem of_leave (h : l.leave s now turns = some (l', exit)) :
    l' = turns.foldl Loop.forward l ∧ exit = lastTest now turns ∧
      5000 ≤ exit - l'.lastDifficultyChangeTime := by
  induction turns generalizing l now with
  | nil =>
      rw [leave_nil, Option.ite_none_left_eq_some] at h
      obtain ⟨htest, hexit⟩ := h
      obtain ⟨rfl, rfl⟩ := Prod.mk.inj (Option.some.inj hexit)
      exact ⟨rfl, rfl, by omega⟩
  | cons turn turns ih =>
      rw [leave_cons, Option.ite_none_right_eq_some] at h
      obtain ⟨hloop, hexit, hquiet⟩ := ih h.2
      refine ⟨hloop, ?_, hquiet⟩
      rw [hexit]
      cases turns with
      | nil => rfl
      | cons next turns => rw [lastTest, lastTest, List.getLast?_cons_cons]; rfl

/-! ## What has settled -/

/-- The two bytes last received are the recorded ones, and no other bytes were the last
ones received at any time in the 5000 ms before the exit. -/
structure Settled (l : Loop) (exit : Int) : Prop where
  seen : l.lastBytes = l.recorded
  quiet : ∀ p ∈ l.received, p.2 ≠ l.recorded → ¬ (exit - 5000 < p.1 ∧ p.1 ≤ exit)

/-- The clock never goes back. -/
def ClockAscends (now₀ now₁ : Int) (turns : List Turn) : Prop :=
  (now₀ :: now₁ :: turns.flatMap Turn.times).Pairwise (· ≤ ·)

instance (now₀ now₁ : Int) (turns : List Turn) : Decidable (ClockAscends now₀ now₁ turns) :=
  inferInstanceAs (Decidable (List.Pairwise _ _))

/-- What client 1 has sent last after these turns. -/
def client1Byte (client1 : GameBoyClient) (turns : List Turn) : Byte :=
  ((turns.getLast?).map Turn.client1Byte).getD client1.lastReceivedByte

/-- In the last turn client 1 repeats what it has sent before; without a turn, both
clients have last sent the 0 that the variables start with. -/
def LastAnswerRepeats (client1 client2 : GameBoyClient) (turns : List Turn) : Prop :=
  match turns.getLast? with
  | some turn => turn.client1Byte = client1Byte client1 turns.dropLast
  | none => client1.lastReceivedByte = 0 ∧ client2.lastReceivedByte = 0

/-- Of what has been received by the time `now`, only the last bytes may differ from the
recorded ones without being older than the last change. -/
structure Inv (l : Loop) (now : Int) : Prop where
  past : ∀ p ∈ l.received, p.1 ≤ now
  client2 : l.received ≠ [] → l.client2Difficulty = l.client2.lastReceivedByte
  quiet : ∀ p ∈ l.received,
    p.2 = l.recorded ∨ p.2 = l.lastBytes ∨ p.1 ≤ l.lastDifficultyChangeTime

theorem inv_start (client1 client2 : GameBoyClient) (now₀ now : Int) :
    Inv (start client1 client2 now₀) now :=
  { past := by simp [start]
    client2 := by simp [start]
    quiet := by simp [start] }

theorem Inv.forward (h : Inv l now) (h₂ : now ≤ turn.client2Time)
    (hcallback : turn.client2Time ≤ turn.callbackTime) (h₁ : turn.callbackTime ≤ turn.client1Time)
    (htest : turn.client1Time ≤ turn.now) : Inv (l.forward turn) turn.now := by
  constructor
  · intro p hp
    rw [Loop.forward_received, List.mem_append] at hp
    rcases hp with hp | hp
    · have := h.past p hp
      omega
    · simp only [List.mem_cons, List.not_mem_nil, or_false] at hp
      rcases hp with rfl | rfl
      · show turn.client2Time ≤ turn.now
        omega
      · exact htest
  · intro _
    rw [Loop.forward_client2]
    exact congrArg Prod.snd (l.forward_recorded turn)
  · intro p hp
    rw [Loop.forward_received, List.mem_append] at hp
    rw [Loop.forward_recorded, Loop.forward_changeTime]
    rcases hp with hp | hp
    · split
      case isTrue hsame =>
          rcases h.quiet p hp with hrec | hlast | hold
          · exact Or.inl (hrec.trans hsame.symm)
          · -- the last bytes so far: client 2's is recorded, client 1's now as well
            have hclient2 := h.client2 (List.ne_nil_of_mem hp)
            have hclient1 : l.client1.lastReceivedByte = l.client1Difficulty :=
              congrArg Prod.fst hsame
            left
            rw [hlast, hsame, Loop.lastBytes, Loop.recorded, hclient1, hclient2]
          · exact Or.inr (Or.inr hold)
      case isFalse hchange =>
          have := h.past p hp
          right; right
          omega
    · simp only [List.mem_cons, List.not_mem_nil, or_false] at hp
      rcases hp with rfl | rfl
      · exact Or.inl rfl
      · right; left
        simp [Loop.lastBytes]

theorem lastTest_snoc (now : Int) (turns : List Turn) (turn : Turn) :
    lastTest now (turns ++ [turn]) = turn.now := by
  simp [lastTest]

theorem lastTest_mem (now : Int) (turns : List Turn) :
    lastTest now turns ∈ now :: turns.flatMap Turn.times := by
  induction turns using List.reverseRecOn with
  | nil => simp [lastTest]
  | append_singleton turns turn =>
      rw [lastTest_snoc]
      simp [Turn.times]

theorem inv_foldl (hclock : ClockAscends now₀ now₁ turns) :
    Inv (turns.foldl Loop.forward (start client1 client2 now₀)) (lastTest now₁ turns) := by
  induction turns using List.reverseRecOn with
  | nil => exact inv_start client1 client2 now₀ _
  | append_singleton turns turn ih =>
      have hsplit : (now₁ :: turns.flatMap Turn.times ++ turn.times).Pairwise (· ≤ ·) := by
        have hall := (List.pairwise_cons.mp hclock).2
        rwa [List.flatMap_append, List.flatMap_singleton] at hall
      obtain ⟨hbefore, hturn, hacross⟩ := List.pairwise_append.mp hsplit
      have hinv := ih (hclock.sublist (by simp))
      simp only [Turn.times, List.pairwise_cons, List.mem_cons, List.not_mem_nil] at hturn
      rw [List.foldl_append, lastTest_snoc]
      apply hinv.forward
      · exact hacross _ (lastTest_mem now₁ turns) _ (by simp [Turn.times])
      · exact hturn.1 _ (Or.inl rfl)
      · exact hturn.2.1 _ (Or.inl rfl)
      · exact hturn.2.2.1 _ (Or.inl rfl)

theorem foldl_client1 (l : Loop) (turns : List Turn) :
    (turns.foldl Loop.forward l).client1.lastReceivedByte = client1Byte l.client1 turns := by
  induction turns using List.reverseRecOn with
  | nil => rfl
  | append_singleton turns turn => simp [client1Byte]

/-- The bytes last received are recorded just when client 1 has repeated itself. -/
theorem lastBytes_eq_recorded_iff (client1 client2 : GameBoyClient) (now₀ : Int)
    (turns : List Turn) :
    (turns.foldl Loop.forward (start client1 client2 now₀)).lastBytes =
        (turns.foldl Loop.forward (start client1 client2 now₀)).recorded ↔
      LastAnswerRepeats client1 client2 turns := by
  induction turns using List.reverseRecOn with
  | nil => exact Prod.mk.injEq _ _ _ _ ▸ Iff.rfl
  | append_singleton turns turn =>
      rw [List.foldl_append, List.foldl_cons, List.foldl_nil, Loop.forward_recorded,
        foldl_client1]
      simp [Loop.lastBytes, LastAnswerRepeats, start]

/-- At the exit of the loop the difficulty has settled if and only if the last answer of
client 1 repeats the one before it. -/
theorem settled_iff_lastAnswerRepeats (hclock : ClockAscends now₀ now₁ turns)
    (hleave : (start client1 client2 now₀).leave s now₁ turns = some (l, exit)) :
    Settled l exit ↔ LastAnswerRepeats client1 client2 turns := by
  obtain ⟨rfl, -, hquiet⟩ := of_leave hleave
  have hinv : Inv (turns.foldl Loop.forward (start client1 client2 now₀)) _ := inv_foldl hclock
  rw [← lastBytes_eq_recorded_iff client1 client2 now₀ turns]
  constructor
  · exact Settled.seen
  · intro hseen
    refine ⟨hseen, fun p hp hother hwindow => ?_⟩
    rcases hinv.quiet p hp with hrec | hlast | hold
    · exact hother hrec
    · exact hother (hlast.trans hseen)
    · omega

/-- A selection in which client 1 changes its difficulty to 3 and both leave it there. -/
def changeTo3 : List Turn :=
  [⟨0, 20, 20, 3, 40, 40⟩, ⟨0, 60, 60, 3, 80, 80⟩, ⟨0, 5040, 5040, 3, 5060, 5060⟩]

theorem settled_iff_lastAnswerRepeats_changeTo3 :
    ∃ l, (start {} {} 0).leave { id := "" } 0 changeTo3 = some (l, 5060) ∧ Settled l 5060 := by
  have hleave : ∃ l, (start {} {} 0).leave { id := "" } 0 changeTo3 = some (l, 5060) := ⟨_, rfl⟩
  obtain ⟨l, hleave⟩ := hleave
  have hclock : ClockAscends 0 0 changeTo3 := by decide
  exact ⟨l, hleave, (settled_iff_lastAnswerRepeats hclock hleave).mpr rfl⟩

/-- Client 1 answers another difficulty 20 ms before the exit: it is neither recorded nor
forwarded to client 2. -/
theorem left_with_unseen_change :
    ClockAscends 0 0 [⟨0, 4940, 4940, 1, 4980, 5000⟩] ∧
      ∃ l, (start {} {} 0).leave { id := "" } 0 [⟨0, 4940, 4940, 1, 4980, 5000⟩] =
        some (l, 5000) ∧ ¬ Settled l 5000 :=
  ⟨by decide, _, rfl, fun h => absurd h.seen (by decide)⟩

end GbPlay.Server.Tetris.Difficulty
