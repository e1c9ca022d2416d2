import GbPlay.Tools.Bridge.Session
import GbPlay.Tools.TetrisFraming

/-!
# The bridge does not get stuck

The initializers of both protocols never raise, so there is always a byte to send next, and
a bridge whose parties all work always goes on.
-/

namespace GbPlay.Tools.Bridge

open GbPlay.Arduino GbPlay.Library GbPlay.Library.Relays GbPlay.Library.Runs
  GbPlay.Library.Sessions GbPlay.Server.Client GbPlay.Tools.Tetris

section Goes

variable {I : Type*} {γ : Client → Type*} {P : Protocol I} {V : I → Prop} {link1 link2 : I}
  {game : ∀ i, Game (γ i)} {boards : ∀ i, Board (γ i)} {g₀ : ∀ i, γ i} {s : BridgeState I γ}
  {xs : List ((Client × Byte) × Byte)}

/-- The initializers in `V` never raise. -/
def Sound (P : Protocol I) (V : I → Prop) : Prop :=
  ∀ link data, V link → ∃ link' toSend, P.dataHandler link data = some (link', toSend) ∧
    (toSend ≠ none → V link')

theorem Sound.of_transcript (hP : Sound P V) (hlink : V link1) {ys : List (Byte × Byte)}
    {q : I × Option Byte} (h : (initialization P).Transcript (link1, none) ys q) : V q.1 := by
  refine h.invariant (I := fun _ q => V q.1) (p := []) ?_ hlink
  intro _ q a b hq hnext
  obtain ⟨link', toSend, hdata, hkeep⟩ := hP q.1 q.2 hq
  have htoSend : toSend = some a := by simpa [initialization, hdata] using hnext
  have hreply : (initialization P).reply q b = (link', some b) := by
    simp [initialization, hdata]
  rw [hreply]
  exact hkeep (by simp [htoSend])

/-- A client that has entered slave mode has answered at least once. -/
theorem Enters.getLast?_ne_none (hfirst : ¬ Initialized P (link1, none))
    {ys : List (Byte × Byte)} (h : Enters P link1 ys) : (ys.map Prod.snd).getLast? ≠ none := by
  obtain ⟨q, htranscript, hdone⟩ := h
  rw [ne_eq, List.getLast?_eq_none_iff, List.map_eq_nil_iff]
  rintro rfl
  obtain rfl := Dialogue.Transcript.nil_iff.mp htranscript
  exact hfirst hdone

theorem start_ne_none {gb1Byte : Option Byte} (h : gb1Byte ≠ none) (rest : List Byte) :
    (start gb1Byte rest : Option (Exchange I)) ≠ none := by
  obtain ⟨b, rfl⟩ := Option.ne_none_iff_exists'.mp h
  cases rest <;> simp [start]

theorem enterSecond_ne_none (hP : Sound P V) {link : I} (hlink : V link)
    (response : Option Byte) {gb1Byte : Option Byte} (h : gb1Byte ≠ none) :
    enterSecond P link response gb1Byte ≠ none := by
  obtain ⟨link', toSend, hdata, _⟩ := hP link response hlink
  rw [enterSecond, hdata]
  cases toSend with
  | none => exact start_ne_none h _
  | some toSend => simp

/-- The server always has a byte to send next. -/
theorem exchange_ne_none (hP : Sound P V) (hlink1 : V link1) (hlink2 : V link2)
    (hfirst : ¬ Initialized P (link1, none)) {q : Point I} (h : Course P link1 link2 xs q) :
    exchange P link2 q ≠ none := by
  cases h with
  | entering1 htranscript _ =>
      obtain ⟨link', toSend, hdata, _⟩ := hP _ _ (hP.of_transcript hlink1 htranscript)
      simp only at hdata
      rw [exchange, hdata]
      cases toSend with
      | some toSend => simp
      | none =>
          have henters : Enters P link1 (talk .client1 xs) := ⟨_, htranscript, link', hdata⟩
          have hlast := (P.records hdata).trans (response_of_transcript htranscript)
          refine enterSecond_ne_none hP hlink2 _ ?_
          rw [hlast]
          exact henters.getLast?_ne_none hfirst
  | entering2 henters htranscript =>
      exact enterSecond_ne_none hP (hP.of_transcript hlink2 htranscript) _
        (henters.getLast?_ne_none hfirst)
  | starting hentered =>
      refine start_ne_none ?_ _
      obtain ⟨b, hb⟩ := Option.ne_none_iff_exists'.mp (hentered.enters1.getLast?_ne_none hfirst)
      rw [got, hentered.client1, List.map_append, List.getLast?_append, hb]
      simp
  | startingSecond => simp [exchange]
  | toClient2 => simp [exchange]
  | toClient1 => simp [exchange]

/-- Nobody has failed. -/
def AllWell (s : BridgeState I γ) : Prop := s.running = true ∧ ∀ i, (s.parts i).Alive

theorem allWell_update {s s' : BridgeState I γ} {i : Client} {part : TCPClient (γ i)}
    (h : AllWell s) (hrunning : s'.running = true) (hpart : part.Alive)
    (hparts : s'.parts = Function.update s.parts i part) : AllWell s' := by
  refine ⟨hrunning, fun j => ?_⟩
  rw [hparts]
  by_cases hji : j = i
  · subst hji
    rwa [Function.update_self]
  · rw [Function.update_of_ne hji]
    exact h.2 j

theorem goes_on (hP : Sound P V) (hlink1 : V link1) (hlink2 : V link2)
    (hfirst : ¬ Initialized P (link1, none)) (hwaits : ∀ i, Waits (game i) (boards i) (g₀ i))
    (h : Reachable (Fires (bridgeStep P link2 game)) (bridgeStart link1 boards) s)
    (hwell : AllWell s) : ∃ l s', bridgeStep P link2 game s l = some s' ∧ AllWell s' := by
  obtain ⟨xs, hseq⟩ := bridge_sequential hwaits h
  have hrunning := hwell.1
  cases hwaiting : s.waiting with
  | none =>
      have hnext := exchange_ne_none hP hlink1 hlink2 hfirst
        (course_of_transcript hseq.transcript)
      obtain ⟨⟨⟨i, a⟩, goOn⟩, hexchange⟩ := Option.ne_none_iff_exists'.mp hnext
      refine ⟨.send, { s with
        waiting := some i
        parts := Function.update s.parts i ((gbSerialTCPClient (game i)).ask (s.parts i) a) },
        ?_, ?_⟩
      · simp [bridgeStep, Sessions.step, hrunning, hwaiting, run, hexchange]
      · exact allWell_update hwell hrunning
          (((responds_client (game i)).ask (s.parts i) a).2.mpr (hwell.2 i)) rfl
  | some i =>
      have hresponds := responds_client (game i)
      rcases hseq.progress (c := fun i => gbSerialTCPClient (game i)) hresponds hrunning hwaiting
        (hwell.2 i) with ⟨s', hreceive⟩ | ⟨l, s', hstep, hs', _⟩
      · refine ⟨.receive, s', hreceive, ?_⟩
        simp only [Sessions.step, hrunning, hwaiting] at hreceive
        split at hreceive <;> cases hreceive
        rename_i hanswer
        exact allWell_update hwell rfl ((hresponds.answer hanswer).2.mpr (hwell.2 i)) rfl
      · refine ⟨.part i l, s', hstep, ?_⟩
        obtain ⟨part, hpart, rfl⟩ := Option.map_eq_some_iff.mp hstep
        simp only [Function.update_self] at hs'
        exact allWell_update hwell hrunning hs' rfl

end Goes

/-- As long as nobody fails, somebody can go on, and need not fail. -/
def GoesOn {I : Type} (P : Protocol I) (link1 link2 : I) : Prop :=
  ∀ {γ : Client → Type} (game : ∀ i, Game (γ i)) (boards : ∀ i, Board (γ i)) (g₀ : ∀ i, γ i)
    (s : BridgeState I γ), (∀ i, Waits (game i) (boards i) (g₀ i)) →
    Reachable (Fires (bridgeStep P link2 game)) (bridgeStart link1 boards) s → AllWell s →
    ∃ l s', bridgeStep P link2 game s l = some s' ∧ AllWell s'

theorem sound_tetris : Sound tetris fun link => ∃ t : Framing.Tables, t.Valid link := by
  rintro link data ⟨t, hvalid⟩
  have hsimulates := Framing.simulates hvalid data
  cases hstep : Library.Phases.step (t.script link) data with
  | none =>
      rw [hstep] at hsimulates
      obtain ⟨hcall⟩ := hsimulates
      exact ⟨_, _, hcall, by simp⟩
  | some x =>
      rw [hstep] at hsimulates
      cases hsimulates with
      | sends hcall hkept => exact ⟨_, _, hcall, fun _ => ⟨t, hkept⟩⟩

theorem sound_pokemonGen1 : Sound pokemonGen1 fun _ => True :=
  fun _ _ _ => ⟨_, _, rfl, fun _ => trivial⟩

theorem valid_getLinkInitializer (ds : Server.Tetris.Data.Draws) :
    ∃ t : Framing.Tables, t.Valid (getLinkInitializer ds).1 :=
  ⟨Framing.tables ds, Framing.valid_initializer _⟩

/-- With either protocol, the bridge stops only when a party fails. -/
theorem bridge_goes_on :
    (∀ ds, GoesOn tetris (getLinkInitializer ds).1
      (getLinkInitializer (getLinkInitializer ds).2).1) ∧ GoesOn pokemonGen1 {} {} := by
  constructor
  · intro ds γ game boards g₀ s hwaits h hwell
    refine goes_on sound_tetris (valid_getLinkInitializer _) (valid_getLinkInitializer _) ?_
      hwaits h hwell
    rintro ⟨link, hdone⟩
    cases hdone
  · intro γ game boards g₀ s hwaits h hwell
    refine goes_on sound_pokemonGen1 trivial trivial ?_ hwaits h hwell
    rintro ⟨link, hdone⟩
    cases hdone

/-- Both Game Boys have been initialized, and the first byte has been forwarded. -/
theorem bridge_goes_on_forwarding :
    ∃ s : BridgeState PokemonGen1LinkInitializer fun _ => Byte,
      s.program.isForwarding = true ∧ AllWell s ∧
      ∃ l s', bridgeStep pokemonGen1 {} (fun _ => slaveGame) s l = some s' ∧ AllWell s' := by
  have hrun : (exec (bridgeStep pokemonGen1 {} fun _ => slaveGame)
      (bridgeStart {} fun _ => slaveBoard) forwardingLabels).any
      (fun s => s.program.isForwarding && decide (s.running = true ∧
        (s.parts .client1).Alive ∧ (s.parts .client2).Alive)) = true := by
    decide +kernel
  obtain ⟨s, hreach, hs⟩ := exists_reachable_of_exec hrun
  rw [Bool.and_eq_true, decide_eq_true_iff] at hs
  obtain ⟨hforwarding, hrunning, halive1, halive2⟩ := hs
  have hwell : AllWell s := by
    refine ⟨hrunning, fun i => ?_⟩
    cases i with
    | client1 => exact halive1
    | client2 => exact halive2
  exact ⟨s, hforwarding, hwell, bridge_goes_on.2 (fun _ => slaveGame) (fun _ => slaveBoard)
    (fun _ => 2) s waits_slaveBoards hreach hwell⟩

end GbPlay.Tools.Bridge
