import GbPlay.Server.Tetris.Handlers

/-!
# The outcome of a round

`handlePlaying` from its first await to the polling of both clients, for the
pairs of bytes that its forwarding loop observes.  The seat of a client makes no
difference to whom the round is credited.
-/

namespace GbPlay.Server.Tetris.Outcome

open GbPlay.Server.Client GbPlay.Server.Script GbPlay.Server.Tetris.Data
open GbPlay.Server.Tetris.Handlers

/-- A handler from an await on, while its forwarding loop transfers these pairs. -/
def forwarding (s : TetrisGameSession) (now : Int) : Frame → List (Byte × Byte) → Resumption
  | frame, [] => resume s now frame
  | frame, (client1Byte, client2Byte) :: pairs =>
      match (resume s now frame).next with
      | .step .forwardClientBytes frame' =>
          forwarding s now (onTransfer client1Byte client2Byte now frame') pairs
      | _ => resume s now frame

/-- `handlePlaying` once it has slept. -/
def playing (s : TetrisGameSession) (now : Int) (pairs : List (Byte × Byte)) : Resumption :=
  forwarding s now .playingSleep pairs

/-! ## Who is credited -/

/-- The last byte with which a client reported that it had won or lost. -/
def lastReport (bytes : List Byte) : Option Byte := (bytes.filter isGameEndingByte).getLast?

inductive Credit
  | client1
  | client2
  | draw
  deriving DecidableEq, Repr

namespace Credit

def swap : Credit → Credit
  | client1 => client2
  | client2 => client1
  | draw => draw

/-- The session with the round counted. -/
def award (s : TetrisGameSession) : Credit → TetrisGameSession
  | client1 => { s with client1WinCount := s.client1WinCount + 1 }
  | client2 => { s with client2WinCount := s.client2WinCount + 1 }
  | draw => s

/-- By the clients' last reports. -/
def ofReports (report₁ report₂ : Option Byte) : Credit :=
  if report₁ = report₂ then draw
  else if report₁ = some TetrisCtrlByte.win ∨ report₂ = some TetrisCtrlByte.lose then client1
  else client2

end Credit

/-- The round that the pairs make up is credited, and its end is polled for. -/
structure Credited (s : TetrisGameSession) (now : Int) (pairs : List (Byte × Byte))
    (credit : Credit) : Prop where
  session : (playing s now pairs).session = credit.award s
  draw : credit = .draw ↔ lastReport (pairs.map Prod.fst) = lastReport (pairs.map Prod.snd)
  client1 : credit = .client1 → lastReport (pairs.map Prod.fst) ≠ some TetrisCtrlByte.lose ∧
    lastReport (pairs.map Prod.snd) ≠ some TetrisCtrlByte.win
  client2 : credit = .client2 → lastReport (pairs.map Prod.snd) ≠ some TetrisCtrlByte.lose ∧
    lastReport (pairs.map Prod.fst) ≠ some TetrisCtrlByte.win
  poll : ∃ roundEndPollByte,
    (playing s now pairs).next =
      .step (.forAllClients (notifyRoundEnd roundEndPollByte)) .playingPoll ∧
    (credit = .draw → lastReport (pairs.map Prod.fst) = some roundEndPollByte) ∧
    (credit ≠ .draw → roundEndPollByte = TetrisCtrlByte.poll)

/-! ## Status bytes -/

/-- A status byte after these bytes of its client. -/
def statusByte (status : Byte) (bytes : List Byte) : Byte :=
  bytes.foldl (fun status b => if isGameEndingByte b then b else status) status

theorem lastReport_cons (b : Byte) (bytes : List Byte) :
    lastReport (b :: bytes) =
      (lastReport bytes).or (if isGameEndingByte b then some b else none) := by
  unfold lastReport
  rw [List.filter_cons]
  split
  · rw [List.getLast?_cons]
    cases (bytes.filter isGameEndingByte).getLast? <;> rfl
  · rw [Option.or_none]

theorem statusByte_eq (status : Byte) (bytes : List Byte) :
    statusByte status bytes = (lastReport bytes).getD status := by
  induction bytes generalizing status with
  | nil => rfl
  | cons b bytes ih =>
      show statusByte (if isGameEndingByte b then b else status) bytes = _
      rw [ih, lastReport_cons]
      cases lastReport bytes with
      | some report => rfl
      | none =>
          split <;> rfl

theorem isGameEndingByte_lastReport {bytes : List Byte} {b : Byte}
    (h : lastReport bytes = some b) : b = TetrisCtrlByte.win ∨ b = TetrisCtrlByte.lose := by
  have hmem : b ∈ bytes.filter isGameEndingByte := List.mem_of_getLast? h
  simpa [isGameEndingByte] using (List.mem_filter.mp hmem).2

/-! ## The forwarding loop -/

/-- Both clients are ready for the end of the round. -/
def ready : Byte × Byte := (TetrisCtrlByte.readyForRoundEnd, TetrisCtrlByte.readyForRoundEnd)

variable {s : TetrisGameSession} {now : Int} {pairs : List (Byte × Byte)}

theorem onTransfer_of_ne {p : Byte × Byte} {status₁ status₂ : Byte} (h : p ≠ ready) :
    onTransfer p.1 p.2 now (.playingForward status₁ status₂ false) =
      .playingForward (statusByte status₁ [p.1]) (statusByte status₂ [p.2]) false := by
  have hready : ¬ (p.1 = TetrisCtrlByte.readyForRoundEnd ∧
      p.2 = TetrisCtrlByte.readyForRoundEnd) := fun hp => h (Prod.ext hp.1 hp.2)
  have hover : (p.1 = TetrisCtrlByte.readyForRoundEnd && p.2 = TetrisCtrlByte.readyForRoundEnd) =
      false := by
    simpa using hready
  simp only [onTransfer, hover, Bool.false_or]
  rfl

/-- The loop ends at the first pair with which both clients are ready. -/
theorem forwarding_ready (hfirst : ready ∉ pairs) (status₁ status₂ : Byte) :
    forwarding s now (.playingForward status₁ status₂ false) (pairs ++ [ready]) =
      finishRound s (statusByte status₁ (pairs.map Prod.fst))
        (statusByte status₂ (pairs.map Prod.snd)) := by
  induction pairs generalizing status₁ status₂ with
  | nil => rfl
  | cons p pairs ih =>
      rw [List.mem_cons, not_or] at hfirst
      calc forwarding s now (.playingForward status₁ status₂ false) (p :: pairs ++ [ready])
          = forwarding s now (onTransfer p.1 p.2 now (.playingForward status₁ status₂ false))
              (pairs ++ [ready]) := rfl
        _ = forwarding s now
              (.playingForward (statusByte status₁ [p.1]) (statusByte status₂ [p.2]) false)
              (pairs ++ [ready]) := by rw [onTransfer_of_ne (Ne.symm hfirst.1)]
        _ = _ := ih hfirst.2 _ _

theorem lastReport_ready (bytes : List Byte) :
    lastReport (bytes ++ [TetrisCtrlByte.readyForRoundEnd]) = lastReport bytes := by
  have hnone : [TetrisCtrlByte.readyForRoundEnd].filter isGameEndingByte = [] := by decide
  rw [lastReport, List.filter_append, hnone, List.append_nil]
  rfl

/-- Where the handler goes on with the clients' last reports. -/
theorem playing_ready (hfirst : ready ∉ pairs) :
    playing s now (pairs ++ [ready]) =
      finishRound s ((lastReport (pairs.map Prod.fst)).getD 0)
        ((lastReport (pairs.map Prod.snd)).getD 0) := by
  rw [← statusByte_eq, ← statusByte_eq]
  cases pairs with
  | nil => rfl
  | cons p pairs => exact forwarding_ready hfirst 0 0

/-! ## The outcome -/

/-- What a client can have reported last, if anything. -/
def IsReport (report : Option Byte) : Prop :=
  report = none ∨ report = some TetrisCtrlByte.win ∨ report = some TetrisCtrlByte.lose

theorem isReport_lastReport (bytes : List Byte) : IsReport (lastReport bytes) := by
  cases h : lastReport bytes with
  | none => exact .inl rfl
  | some b =>
      obtain rfl | rfl := isGameEndingByte_lastReport h
      · exact .inr (.inl rfl)
      · exact .inr (.inr rfl)

theorem lastReport_ne_none {bytes : List Byte} {b : Byte} (hmem : b ∈ bytes)
    (h : isGameEndingByte b = true) : lastReport bytes ≠ none := by
  rw [lastReport, Ne, List.getLast?_eq_none_iff]
  exact List.ne_nil_of_mem (List.mem_filter.mpr ⟨hmem, h⟩)

namespace Credit

variable {report₁ report₂ : Option Byte}

theorem ofReports_eq_draw : ofReports report₁ report₂ = draw ↔ report₁ = report₂ := by
  unfold ofReports
  split
  · rename_i heq
    exact iff_of_true rfl heq
  · rename_i hne
    apply iff_of_false _ hne
    split <;> simp

theorem swap_ofReports (h₁ : IsReport report₁) (h₂ : IsReport report₂) :
    (ofReports report₁ report₂).swap = ofReports report₂ report₁ := by
  obtain rfl | rfl | rfl := h₁ <;> obtain rfl | rfl | rfl := h₂ <;> rfl

/-- Client 1 is not credited against its own report, nor against that of client 2. -/
theorem of_ofReports_client1 (h₁ : IsReport report₁) (h₂ : IsReport report₂)
    (hcredit : ofReports report₁ report₂ = client1) :
    report₁ ≠ some TetrisCtrlByte.lose ∧ report₂ ≠ some TetrisCtrlByte.win := by
  obtain rfl | rfl | rfl := h₁ <;> obtain rfl | rfl | rfl := h₂ <;>
    first
    | exact ⟨by decide, by decide⟩
    | cases hcredit

theorem of_ofReports_client2 (h₁ : IsReport report₁) (h₂ : IsReport report₂)
    (hcredit : ofReports report₁ report₂ = client2) :
    report₂ ≠ some TetrisCtrlByte.lose ∧ report₁ ≠ some TetrisCtrlByte.win := by
  apply of_ofReports_client1 h₂ h₁
  rw [← swap_ofReports h₁ h₂, hcredit]
  rfl

theorem award_injective {credit credit' : Credit} (h : credit.award s = credit'.award s) :
    credit = credit' := by
  have h₁ := congrArg TetrisGameSession.client1WinCount h
  have h₂ := congrArg TetrisGameSession.client2WinCount h
  cases credit <;> cases credit' <;> simp [award] at h₁ h₂ ⊢

end Credit

/-- The branches behind the loop go by the clients' last reports. -/
theorem session_finishRound {report₁ report₂ : Option Byte} (h₁ : IsReport report₁)
    (h₂ : IsReport report₂) :
    (finishRound s (report₁.getD 0) (report₂.getD 0)).session =
      (Credit.ofReports report₁ report₂).award s := by
  obtain rfl | rfl | rfl := h₁ <;> obtain rfl | rfl | rfl := h₂ <;> rfl

/-- The byte for the polling, if a client has reported at all. -/
theorem next_finishRound {report₁ report₂ : Option Byte} (h₁ : IsReport report₁)
    (h₂ : IsReport report₂) (hsome : report₁ ≠ none ∨ report₂ ≠ none) :
    ∃ roundEndPollByte,
      (finishRound s (report₁.getD 0) (report₂.getD 0)).next =
        .step (.forAllClients (notifyRoundEnd roundEndPollByte)) .playingPoll ∧
      (Credit.ofReports report₁ report₂ = .draw → report₁ = some roundEndPollByte) ∧
      (Credit.ofReports report₁ report₂ ≠ .draw → roundEndPollByte = TetrisCtrlByte.poll) := by
  rw [Ne, Credit.ofReports_eq_draw]
  obtain rfl | rfl | rfl := h₁ <;> obtain rfl | rfl | rfl := h₂ <;>
    first
    | exact absurd rfl (hsome.elim id id)
    | exact ⟨_, rfl, fun _ => rfl, fun hne => absurd rfl hne⟩
    | exact ⟨_, rfl, fun heq => absurd heq (by decide), fun _ => rfl⟩

theorem next_finishRound_comm (status₁ status₂ : Byte) :
    (finishRound s status₁ status₂).next = (finishRound s status₂ status₁).next := by
  unfold finishRound
  by_cases heq : status₁ = status₂
  · rw [heq]
  · simp only [heq, Ne.symm heq, if_false]

theorem lastReport_append_ready (pairs : List (Byte × Byte)) :
    lastReport ((pairs ++ [ready]).map Prod.fst) = lastReport (pairs.map Prod.fst) ∧
      lastReport ((pairs ++ [ready]).map Prod.snd) = lastReport (pairs.map Prod.snd) := by
  rw [List.map_append, List.map_append]
  exact ⟨lastReport_ready _, lastReport_ready _⟩

theorem credited_ofReports (s : TetrisGameSession) (now : Int) (hfirst : ready ∉ pairs)
    (hreport : ∃ p ∈ pairs, isGameEndingByte p.1 = true ∨ isGameEndingByte p.2 = true) :
    Credited s now (pairs ++ [ready])
      (.ofReports (lastReport (pairs.map Prod.fst)) (lastReport (pairs.map Prod.snd))) := by
  have h₁ := isReport_lastReport (pairs.map Prod.fst)
  have h₂ := isReport_lastReport (pairs.map Prod.snd)
  have hsome : lastReport (pairs.map Prod.fst) ≠ none ∨ lastReport (pairs.map Prod.snd) ≠ none := by
    obtain ⟨p, hp, hfst | hsnd⟩ := hreport
    · exact .inl (lastReport_ne_none (List.mem_map_of_mem hp) hfst)
    · exact .inr (lastReport_ne_none (List.mem_map_of_mem hp) hsnd)
  obtain ⟨hfst, hsnd⟩ := lastReport_append_ready pairs
  constructor
  case session => rw [playing_ready hfirst, session_finishRound h₁ h₂]
  case draw =>
      rw [hfst, hsnd]
      exact Credit.ofReports_eq_draw
  case client1 =>
      rw [hfst, hsnd]
      exact Credit.of_ofReports_client1 h₁ h₂
  case client2 =>
      rw [hfst, hsnd]
      exact Credit.of_ofReports_client2 h₁ h₂
  case poll =>
      rw [hfst, playing_ready hfirst]
      exact next_finishRound h₁ h₂ hsome

theorem Credited.unique {credit credit' : Credit} (h : Credited s now pairs credit)
    (h' : Credited s now pairs credit') : credit = credit' :=
  Credit.award_injective (h.session.symm.trans h'.session)

/-- Whatever the two clients have sent before both are ready, if one of them has
reported the round is credited to exactly one of them or to nobody, by what they
reported last.  Had they sat the other way round, the credit would have gone the
other way, with the same byte for the polling. -/
theorem round_outcome (s : TetrisGameSession) (now : Int) (hfirst : ready ∉ pairs)
    (hreport : ∃ p ∈ pairs, isGameEndingByte p.1 = true ∨ isGameEndingByte p.2 = true) :
    (∃! credit, Credited s now (pairs ++ [ready]) credit) ∧
    ∀ credit, Credited s now (pairs ++ [ready]) credit →
      Credited s now ((pairs ++ [ready]).map Prod.swap) credit.swap ∧
      (playing s now ((pairs ++ [ready]).map Prod.swap)).next =
        (playing s now (pairs ++ [ready])).next := by
  have hcredited := credited_ofReports s now hfirst hreport
  refine ⟨⟨_, hcredited, fun credit h => h.unique hcredited⟩, ?_⟩
  intro credit h
  obtain rfl := h.unique hcredited
  have hswap : (pairs ++ [ready]).map Prod.swap = pairs.map Prod.swap ++ [ready] := by
    rw [List.map_append]
    rfl
  have hfirst' : ready ∉ pairs.map Prod.swap := by
    intro hmem
    obtain ⟨p, hp, heq⟩ := List.mem_map.mp hmem
    have hready : p = ready := by rw [← Prod.swap_swap p, heq]; rfl
    exact hfirst (hready ▸ hp)
  have hreport' : ∃ p ∈ pairs.map Prod.swap,
      isGameEndingByte p.1 = true ∨ isGameEndingByte p.2 = true := by
    obtain ⟨p, hp, hor⟩ := hreport
    exact ⟨p.swap, List.mem_map_of_mem hp, hor.symm⟩
  have hcredited' := credited_ofReports s now hfirst' hreport'
  have hmap : (pairs.map Prod.swap).map Prod.fst = pairs.map Prod.snd ∧
      (pairs.map Prod.swap).map Prod.snd = pairs.map Prod.fst := by
    simp [Function.comp_def]
  rw [hswap]
  refine ⟨?_, ?_⟩
  · rw [Credit.swap_ofReports (isReport_lastReport _) (isReport_lastReport _), ← hmap.1, ← hmap.2]
    exact hcredited'
  · rw [playing_ready hfirst', playing_ready hfirst, hmap.1, hmap.2]
    exact next_finishRound_comm _ _

/-- Client 1 claims to have won, thinks better of it and reports that it has lost;
client 2 says nothing. -/
theorem round_outcome_change_of_mind :
    ∃ s : TetrisGameSession, s.client1WinCount = 0 ∧ s.client2WinCount = 1 ∧
      s = (playing { id := "" } 0
        [(TetrisCtrlByte.win, 0), (TetrisCtrlByte.lose, 0x30), ready]).session := by
  have hfirst : ready ∉ [(TetrisCtrlByte.win, (0 : Byte)), (TetrisCtrlByte.lose, 0x30)] := by
    decide
  have h := round_outcome { id := "" } 0 hfirst ⟨_, List.mem_cons_self, .inl rfl⟩
  obtain ⟨credit, hcredited, _⟩ := h.1
  have hdraw : credit ≠ .draw := fun heq => absurd (hcredited.draw.mp heq) (by decide)
  have hclient1 : credit ≠ .client1 := fun heq => absurd rfl (hcredited.client1 heq).1
  have hclient2 : credit = .client2 := by
    cases credit
    · exact absurd rfl hclient1
    · rfl
    · exact absurd rfl hdraw
  exact ⟨_, by rw [hclient2]; rfl, by rw [hclient2]; rfl, hcredited.session.symm⟩

end GbPlay.Server.Tetris.Outcome
