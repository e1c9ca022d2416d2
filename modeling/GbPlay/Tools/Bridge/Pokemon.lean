import GbPlay.Tools.Bridge.Session
import GbPlay.Tools.TetrisFraming

/-!
# Pokémon over the bridge

Each Game Boy is polled with `MASTER_MAGIC` until it answers `SLAVE_MAGIC`.  There is no
start sequence: once both have, that answer of the first Game Boy is the first byte that
the second one is sent, and from then on each of them gets what the other one answers
next.
-/

namespace GbPlay.Tools.Bridge

open GbPlay.Arduino GbPlay.Library GbPlay.Library.Runs GbPlay.Library.Sessions
  GbPlay.Server.Client GbPlay.Tools.Tetris.Framing
open PokemonGen1LinkInitializer (masterMagic slaveMagic)

/-- How often a Game Boy that answers `bs` is polled. -/
def pollCount (bs : List Byte) : Nat := (bs.takeWhile (· ≠ slaveMagic)).length + 1

/-- What it answers from the first `SLAVE_MAGIC` on. -/
def fromSlaveMagic (bs : List Byte) : List Byte := bs.dropWhile (· ≠ slaveMagic)

section Polls

variable {zs : List Byte} {ys us : List (Byte × Byte)}
  {link : PokemonGen1LinkInitializer} {q : PokemonGen1LinkInitializer × Option Byte}

theorem ne_of_notMem (h : slaveMagic ∉ zs) : ∀ b ∈ zs, decide (b ≠ slaveMagic) = true := by
  intro b hb
  rw [decide_eq_true_iff]
  rintro rfl
  exact h hb

theorem pollCount_append (h : slaveMagic ∉ zs) (rest : List Byte) :
    pollCount (zs ++ slaveMagic :: rest) = zs.length + 1 := by
  rw [pollCount, List.takeWhile_append_of_pos (ne_of_notMem h)]
  simp

theorem pollCount_le (bs : List Byte) : pollCount bs ≤ bs.length + 1 :=
  Nat.succ_le_succ (List.takeWhile_prefix _).length_le

theorem fromSlaveMagic_append (h : slaveMagic ∉ zs) (rest : List Byte) :
    fromSlaveMagic (zs ++ slaveMagic :: rest) = slaveMagic :: rest := by
  rw [fromSlaveMagic, List.dropWhile_append_of_pos (ne_of_notMem h)]
  simp

theorem afterFirst_append (h : slaveMagic ∉ zs) (rest : List Byte) :
    afterFirst slaveMagic (zs ++ slaveMagic :: rest) = rest := by
  have hfrom := fromSlaveMagic_append h rest
  rw [fromSlaveMagic] at hfrom
  rw [afterFirst, hfrom]
  rfl

theorem length_of_answers {c : Byte} (h : ys.map Prod.snd = zs ++ [c]) :
    ys.length = zs.length + 1 := by
  have hlength := congrArg List.length h
  rwa [List.length_map, List.length_append, List.length_singleton] at hlength

/-- A client that is being polled. -/
structure Polled (ys : List (Byte × Byte)) (response : Option Byte) : Prop where
  sent : ys.map Prod.fst = List.replicate ys.length masterMagic
  last : response = (ys.map Prod.snd).getLast?
  before : slaveMagic ∉ (ys.map Prod.snd).dropLast

theorem polled_of_transcript (h : (initialization pokemonGen1).Transcript (link, none) ys q) :
    Polled ys q.2 := by
  refine h.invariant (I := fun ys q => Polled ys q.2) (p := []) ?_ ⟨rfl, rfl, by simp⟩
  rintro ys ⟨link, response⟩ a b ⟨hsent, hlast, hbefore⟩ hnext
  have hmore : response ≠ some slaveMagic ∧ masterMagic = a := by
    simpa [initialization, pokemonGen1, PokemonGen1LinkInitializer.dataHandler] using hnext
  obtain ⟨hresponse, rfl⟩ := hmore
  constructor
  · rw [List.map_append, hsent, List.length_append, List.length_singleton,
      List.replicate_succ']
    rfl
  · simp [initialization, pokemonGen1, PokemonGen1LinkInitializer.dataHandler]
  · rw [List.map_append, List.map_singleton, List.dropLast_concat]
    intro hmem
    -- what has been answered before has been judged already
    rcases List.eq_nil_or_concat (ys.map Prod.snd) with hnil | ⟨zs, c, hzs⟩
    · simp [hnil] at hmem
    · rw [List.concat_eq_append] at hzs
      rw [hzs, List.dropLast_concat] at hbefore
      rw [hzs] at hmem hlast
      simp only at hlast
      rcases List.mem_append.mp hmem with hmem | hmem
      · exact hbefore hmem
      · rw [List.mem_singleton] at hmem
        rw [hlast, ← hmem] at hresponse
        simp at hresponse

/-- It has been polled no more often than it is. -/
theorem Polled.isPrefix {response : Option Byte} (h : Polled ys response) (rest : List Byte) :
    ys.map Prod.fst <+: List.replicate (pollCount (ys.map Prod.snd)) masterMagic ++ rest := by
  rw [h.sent]
  refine List.IsPrefix.trans ?_ (List.prefix_append _ _)
  rw [List.prefix_replicate_iff]
  refine ⟨?_, by simp⟩
  rw [List.length_replicate]
  rcases List.eq_nil_or_concat (ys.map Prod.snd) with hnil | ⟨zs, c, hzs⟩
  · obtain rfl := List.map_eq_nil_iff.mp hnil
    exact Nat.zero_le _
  · rw [List.concat_eq_append] at hzs
    have hbefore := h.before
    rw [hzs, List.dropLast_concat] at hbefore
    rw [length_of_answers hzs, hzs, pollCount,
      List.takeWhile_append_of_pos (ne_of_notMem hbefore), List.length_append]
    omega

/-- Once it has answered `SLAVE_MAGIC`, that is its last answer. -/
theorem Polled.eq_of_mem {response : Option Byte} (h : Polled ys response)
    (hmem : slaveMagic ∈ ys.map Prod.snd) :
    ∃ zs, slaveMagic ∉ zs ∧ ys.map Prod.snd = zs ++ [slaveMagic] := by
  rcases List.eq_nil_or_concat (ys.map Prod.snd) with hnil | ⟨zs, c, hzs⟩
  · simp [hnil] at hmem
  · rw [List.concat_eq_append] at hzs
    have hbefore := h.before
    rw [hzs, List.dropLast_concat] at hbefore
    rw [hzs, List.mem_append, List.mem_singleton] at hmem
    obtain rfl := hmem.resolve_left hbefore
    exact ⟨zs, hbefore, hzs⟩

theorem Polled.pollCount_of_mem {response : Option Byte} (h : Polled ys response)
    (hmem : slaveMagic ∈ ys.map Prod.snd) :
    pollCount (ys.map Prod.snd) = (ys.map Prod.fst).length := by
  obtain ⟨zs, hnot, hzs⟩ := h.eq_of_mem hmem
  rw [hzs, pollCount_append hnot, List.length_map, length_of_answers hzs]

theorem Polled.afterFirst_eq_nil {response : Option Byte} (h : Polled ys response) :
    afterFirst slaveMagic (ys.map Prod.snd) = [] := by
  by_cases hmem : slaveMagic ∈ ys.map Prod.snd
  · obtain ⟨zs, hnot, hzs⟩ := h.eq_of_mem hmem
    rw [hzs, afterFirst_append hnot]
  · rw [afterFirst, List.dropWhile_eq_nil_iff.mpr (ne_of_notMem hmem)]
    rfl

theorem polls_of_enters (h : Enters pokemonGen1 link ys) :
    ∃ zs, slaveMagic ∉ zs ∧ ys.map Prod.snd = zs ++ [slaveMagic] ∧
      ys.map Prod.fst = List.replicate (zs.length + 1) masterMagic := by
  obtain ⟨q, htranscript, link', hdone⟩ := h
  have hpolled := polled_of_transcript htranscript
  have hresponse : q.2 = some slaveMagic := by
    by_contra hne
    simp [pokemonGen1, PokemonGen1LinkInitializer.dataHandler, hne] at hdone
  have hmem : slaveMagic ∈ ys.map Prod.snd :=
    List.mem_of_getLast? (hpolled.last.symm.trans hresponse)
  obtain ⟨zs, hnot, hzs⟩ := hpolled.eq_of_mem hmem
  refine ⟨zs, hnot, hzs, ?_⟩
  rw [hpolled.sent, length_of_answers hzs]

variable {i : Client} {as : List (Byte × Byte)} {xs : List ((Client × Byte) × Byte)}

/-- What a client that has been polled has answered, then and since. -/
theorem got_of_polls (htalk : talk i xs = as ++ us) (hgot : as.map Prod.snd = zs ++ [slaveMagic]) :
    got i xs = zs ++ slaveMagic :: us.map Prod.snd := by
  rw [got, htalk, List.map_append, hgot, List.append_assoc]
  rfl

theorem sent_of_polls {n : Nat} (htalk : talk i xs = as ++ us)
    (hsent : as.map Prod.fst = List.replicate n masterMagic) :
    sent i xs = List.replicate n masterMagic ++ us.map Prod.fst := by
  rw [sent, htalk, List.map_append, hsent]

end Polls

/-- What the two Game Boys are sent, by what the other one has answered.  The answer with which
the second one enters slave mode is not passed on. -/
structure Linked (xs : List ((Client × Byte) × Byte)) : Prop where
  client1 : sent .client1 xs <+: List.replicate (pollCount (got .client1 xs)) masterMagic ++
    afterFirst slaveMagic (got .client2 xs)
  client2 : sent .client2 xs <+: List.replicate (pollCount (got .client2 xs)) masterMagic ++
    fromSlaveMagic (got .client1 xs)
  order : sent .client2 xs ≠ [] → slaveMagic ∈ got .client1 xs
  behind1 : pollCount (got .client1 xs) + (afterFirst slaveMagic (got .client2 xs)).length ≤
    (sent .client1 xs).length + 1
  behind2 : slaveMagic ∈ got .client2 xs →
    pollCount (got .client2 xs) + (fromSlaveMagic (got .client1 xs)).length ≤
      (sent .client2 xs).length + 1

theorem linked_of_bridged {xs : List ((Client × Byte) × Byte)}
    (h : Bridged pokemonGen1 {} {} xs) : Linked xs := by
  cases h with
  | initializing1 htranscript hclient2 =>
      have hsent : sent .client2 xs = [] := by rw [sent, hclient2]; rfl
      have hgot : got .client2 xs = [] := by rw [got, hclient2]; rfl
      have hpolled := polled_of_transcript htranscript
      constructor
      · exact hpolled.isPrefix _
      · rw [hsent]
        exact List.nil_prefix
      · exact fun hne => absurd hsent hne
      · rw [hgot]
        calc pollCount (got .client1 xs)
            ≤ (got .client1 xs).length + 1 := pollCount_le _
          _ = (sent .client1 xs).length + 1 := by rw [got, sent, List.length_map, List.length_map]
      · intro hmem
        rw [hgot] at hmem
        cases hmem
  | initializing2 henters htranscript =>
      obtain ⟨zs, hnot, hgot, hsent⟩ := polls_of_enters henters
      have hpolled := polled_of_transcript htranscript
      constructor
      · rw [sent, got, hgot, hsent, pollCount_append hnot]
        exact List.prefix_append _ _
      · exact hpolled.isPrefix _
      · intro _
        rw [got, hgot]
        simp
      · have hafter : afterFirst slaveMagic (got .client2 xs) = [] := hpolled.afterFirst_eq_nil
        rw [hafter, sent, got, hgot, hsent, pollCount_append hnot]
        simp
      · intro hmem
        have hcount : pollCount (got .client2 xs) = (sent .client2 xs).length :=
          hpolled.pollCount_of_mem hmem
        rw [hcount, got, hgot, fromSlaveMagic_append hnot]
        rfl
  | linked hentered hus₁ hus₂ _ hbehind =>
      rename_i as₁ as₂ us₁ us₂ _
      obtain ⟨zs₁, hnot₁, hgot₁, hsent₁⟩ := polls_of_enters hentered.enters1
      obtain ⟨zs₂, hnot₂, hgot₂, hsent₂⟩ := polls_of_enters hentered.enters2
      have hgot1 := got_of_polls hentered.client1 hgot₁
      have hgot2 := got_of_polls hentered.client2 hgot₂
      have hsent1 := sent_of_polls hentered.client1 hsent₁
      have hsent2 := sent_of_polls hentered.client2 hsent₂
      have hforwarded : forwarded1 pokemonGen1 as₁ us₁ = slaveMagic :: us₁.map Prod.snd := by
        rw [forwarded1, List.map_append, hgot₁, length_of_answers hgot₁, List.append_assoc]
        exact List.drop_left
      constructor
      · rw [hgot1, hgot2, hsent1, pollCount_append hnot₁, afterFirst_append hnot₂]
        exact (List.prefix_append_right_inj _).mpr hus₁
      · rw [hgot1, hgot2, hsent2, pollCount_append hnot₂, fromSlaveMagic_append hnot₁,
          ← hforwarded]
        exact (List.prefix_append_right_inj _).mpr hus₂
      · intro _
        rw [hgot1]
        simp
      · rw [hgot1, hgot2, hsent1, pollCount_append hnot₁, afterFirst_append hnot₂]
        simp only [List.length_append, List.length_replicate, List.length_map]
        omega
      · intro _
        -- without a start sequence the first Game Boy is never ahead
        have hle : us₁.length ≤ us₂.length := by
          have := hus₁.length_le
          simpa [forwarded2, pokemonGen1] using this
        rw [hgot1, hgot2, hsent2, pollCount_append hnot₂, fromSlaveMagic_append hnot₁]
        simp only [List.length_append, List.length_replicate, List.length_map, List.length_cons]
        omega

section Bridge

variable {γ : Client → Type*} {game : ∀ i, Game (γ i)} {boards : ∀ i, Board (γ i)} {g₀ : ∀ i, γ i}
  {s : BridgeState PokemonGen1LinkInitializer γ}

/-- In every run of the bridge, each Game Boy is polled until it answers `SLAVE_MAGIC`.  Then the
second one is sent what the first one answers from that answer on, and the first one what the
second one answers after it: all of it and in order, but at most the last. -/
theorem pokemon_linked (hwaits : ∀ i, Waits (game i) (boards i) (g₀ i))
    (h : Reachable (Fires (bridgeStep pokemonGen1 {} game)) (bridgeStart {} boards) s) :
    ∃ xs, (run pokemonGen1 {}).Transcript (.entering1 {} none) xs s.program ∧ Linked xs ∧
      ∀ i, got i xs = answers (game i).device (g₀ i) (sent i xs) ∧
      ∃ pending, (s.parts i).gameBoy = after (game i).device (g₀ i) (sent i xs ++ pending) ∧
        (pending = [] ∨ ∃ a, pending = [a] ∧ s.waiting = some i ∧
          (run pokemonGen1 {}).next s.program = some (i, a)) := by
  obtain ⟨xs, hseq⟩ := bridge_sequential hwaits h
  have hlinked : Linked xs :=
    linked_of_bridged (bridged_of_course (course_of_transcript hseq.transcript))
  refine ⟨xs, hseq.transcript, hlinked, fun i => ⟨hseq.genuine i, ?_⟩⟩
  obtain ⟨pending, hgameBoy, hpending⟩ := gameBoy_of_stands hseq.stands i
  refine ⟨pending, ?_, hpending⟩
  rw [hgameBoy, after_append]
  rfl

theorem pokemon_linked_forwarding :
    ∃ s : BridgeState PokemonGen1LinkInitializer fun _ => Byte, s.program.isForwarding = true ∧
      ∃ xs, (run pokemonGen1 {}).Transcript (.entering1 {} none) xs s.program ∧ Linked xs ∧
        ∀ i, got i xs = answers slaveGame.device 2 (sent i xs) := by
  obtain ⟨s, hreach, hforwarding⟩ := exists_reachable_of_exec forwarding_reached
  obtain ⟨xs, htranscript, hlinked, hgameBoys⟩ := pokemon_linked waits_slaveBoards hreach
  exact ⟨s, hforwarding, xs, htranscript, hlinked, fun i => (hgameBoys i).1⟩

end Bridge

end GbPlay.Tools.Bridge
