import GbPlay.Tools.Bridge.Cradle
import GbPlay.Tools.Bridge.Protocols
import GbPlay.Tools.SerialLink

/-!
# The bridge from end to end

The server, two TCP connections, the two programs that serve them
(`GBSerialTCPClient.connect`), their serial links, the adapters and the Game Boys.
Every party takes its steps by itself, and any of them may fail.
-/

namespace GbPlay.Tools.Bridge

open GbPlay.Arduino GbPlay.Library GbPlay.Library.Relays GbPlay.Library.Runs
  GbPlay.Library.Sessions GbPlay.Server.Client GbPlay.Tools.SerialLink

variable {I : Type*} {γ : Client → Type*}

/-- A client of the server: it receives a byte, calls `gb_link.send` and sends back the
result. -/
abbrev TCPClient (γ : Type*) := Relayed (Link γ) Byte Byte

abbrev TCPClientLabel := RelayLabel LinkLabel

def gbSerialTCPClient {γ : Type*} (game : Game γ) :
    Component (TCPClient γ) TCPClientLabel Byte Byte :=
  relayed (serialLink game)

/-- `connect`: the link is opened first. -/
def connect {γ : Type*} (board : Board γ) : TCPClient γ :=
  { relay := .receiving, inner := openLink board }

abbrev BridgeLabel := Label fun _ : Client => TCPClientLabel

abbrev BridgeState (I : Type*) (γ : Client → Type*) := Session (Point I) fun i => TCPClient (γ i)

def bridgeStep (P : Protocol I) (link2 : I) (game : ∀ i, Game (γ i)) :
    BridgeState I γ → BridgeLabel → Option (BridgeState I γ) :=
  Sessions.step (run P link2) fun i => gbSerialTCPClient (game i)

/-- Both clients are connected; `link1` is the initializer of the first call of
`get_link_initializer`. -/
def bridgeStart (link1 : I) (boards : ∀ i, Board (γ i)) : BridgeState I γ :=
  { program := .entering1 link1 none, parts := fun i => connect (boards i) }

/-- The Game Boy at the end of the line. -/
def TCPClient.gameBoy {γ : Type*} (c : TCPClient γ) : γ := c.inner.inner.board.port.state

abbrev ClientPhase {γ : Type*} (game : Game γ) : TCPClient γ → Phase γ Byte Byte → Prop :=
  RelayPhase (LinkPhase game)

/-- No party on the way to the Game Boy has failed. -/
abbrev TCPClient.Alive {γ : Type*} : TCPClient γ → Prop := Relayed.Alive Link.Alive

section Bridge

variable {P : Protocol I} {link1 link2 : I} {game : ∀ i, Game (γ i)} {boards : ∀ i, Board (γ i)}
  {g₀ : ∀ i, γ i} {s s' : BridgeState I γ} {i : Client}

theorem serves_client {γ : Type*} (game : Game γ) :
    Serves (gbSerialTCPClient game) game.device (ClientPhase game) :=
  (serves_serialLink game).relayed

theorem responds_client {γ : Type*} (game : Game γ) :
    Responds (gbSerialTCPClient game) (ClientPhase game) TCPClient.Alive
      (Relayed.rank Link.rank 7) 11 :=
  (responds_serialLink game).relayed

theorem bounded_client {γ : Type*} (game : Game γ) :
    Bounded (ClientPhase game) (Relayed.rank Link.rank 7) 4 15 5 :=
  (bounded_link game).relayed 7

theorem clientPhase_gameBoy {γ : Type*} {game : Game γ} {c : TCPClient γ}
    {p : Phase γ Byte Byte} (h : ClientPhase game c p) : c.gameBoy = p.state := by
  obtain ⟨p', hlink, hp'⟩ := h.inner
  obtain ⟨p'', hsketch, hp''⟩ := hlink.inner
  rw [TCPClient.gameBoy, hsketch.state, hp'', hp']

abbrev device (game : ∀ i, Game (γ i)) (i : Client) : γ i → Byte → γ i × Byte := (game i).device

theorem bridge_sequential (hwaits : ∀ i, Waits (game i) (boards i) (g₀ i))
    (h : Reachable (Fires (bridgeStep P link2 game)) (bridgeStart link1 boards) s) :
    ∃ xs, Sequential (run P link2) (device game) (fun i => ClientPhase (game i))
      (.entering1 link1 none) g₀ s xs :=
  sequential (fun i => serves_client (game i))
    (fun i => .idle rfl rfl rfl (linkPhase_openLink (hwaits i))) h

/-- What a Game Boy has been clocked in: what has been exchanged with it and perhaps the byte
that is being exchanged. -/
theorem gameBoy_of_stands {g : ∀ i, γ i}
    (h : Stands (run P link2) (device game) (fun i => ClientPhase (game i)) g s) (i : Client) :
    ∃ pending : List Byte, (s.parts i).gameBoy = after (device game i) (g i) pending ∧
      (pending = [] ∨ ∃ a, pending = [a] ∧ s.waiting = some i ∧
        (run P link2).next s.program = some (i, a)) := by
  cases h with
  | ready _ hidle => exact ⟨[], clientPhase_gameBoy (hidle i), .inl rfl⟩
  | @asked k a _ _ hR hidle =>
      by_cases hik : i = k
      · subst hik
        exact ⟨[], clientPhase_gameBoy hR, .inl rfl⟩
      · exact ⟨[], clientPhase_gameBoy (hidle i hik), .inl rfl⟩
  | @answered k a hwaiting hnext hR hidle =>
      by_cases hik : i = k
      · subst hik
        exact ⟨[a], clientPhase_gameBoy hR, .inr ⟨a, rfl, hwaiting, hnext⟩⟩
      · exact ⟨[], clientPhase_gameBoy (hidle i hik), .inl rfl⟩

/-- In every run of all parties, what the server has exchanged has brought it to where it stands.
The Game Boys have been clocked in just that, and perhaps the byte of the exchange that is going
on; they have answered for themselves, and what they have been sent is the initialization, the
start sequence and then each other's answers. -/
theorem game_boys_linked (hwaits : ∀ i, Waits (game i) (boards i) (g₀ i))
    (h : Reachable (Fires (bridgeStep P link2 game)) (bridgeStart link1 boards) s) :
    ∃ xs, (run P link2).Transcript (.entering1 link1 none) xs s.program ∧
      Bridged P link1 link2 xs ∧ ∀ i,
      got i xs = answers (game i).device (g₀ i) (sent i xs) ∧
      ∃ pending, (s.parts i).gameBoy = after (game i).device (g₀ i) (sent i xs ++ pending) ∧
        (pending = [] ∨ ∃ a, pending = [a] ∧ s.waiting = some i ∧
          (run P link2).next s.program = some (i, a)) := by
  obtain ⟨xs, htranscript, hgenuine, hstands⟩ := bridge_sequential hwaits h
  have hbridged := bridged_of_course (course_of_transcript htranscript)
  refine ⟨xs, htranscript, hbridged, fun i => ⟨hgenuine i, ?_⟩⟩
  obtain ⟨pending, hgameBoy, hpending⟩ := gameBoy_of_stands hstands i
  refine ⟨pending, ?_, hpending⟩
  rw [hgameBoy, after_append]
  rfl

/-- A game that answers 0x02 to everything, and its board. -/
def slaveGame : Game Byte := { next := id, receive := fun g _ => g }

def slaveBoard : Board Byte :=
  { clk := true, so := true, port := { state := 2, register := 2, out := true } }

theorem waits_slaveBoards : ∀ _ : Client, Waits slaveGame slaveBoard 2 :=
  fun _ => ⟨rfl, rfl, rfl, .inl rfl⟩

/-- The adapter starts, and its client. -/
def boot (i : Client) : List BridgeLabel :=
  [.part i (.inner (.inner .setup)), .part i (.inner .wake)]

/-- All the steps of one exchange. -/
def exchangeLabels (i : Client) : List BridgeLabel :=
  [.send, .part i .receive, .part i .pass, .part i (.inner .receive), .part i (.inner .pass),
    .part i (.inner (.inner .read)), .part i (.inner (.inner .transfer)),
    .part i (.inner (.inner .write)), .part i (.inner .collect), .part i (.inner .deliver),
    .part i .collect, .part i .deliver, .receive]

def Point.isForwarding : Point I → Bool
  | .toClient1 _ => true
  | _ => false

/-- Each client answers its first poll, and then a byte is forwarded. -/
def forwardingLabels : List BridgeLabel :=
  boot .client1 ++ boot .client2 ++ exchangeLabels .client1 ++ exchangeLabels .client2 ++
    exchangeLabels .client2

theorem forwarding_reached :
    (exec (bridgeStep pokemonGen1 {} fun _ => slaveGame) (bridgeStart {} fun _ => slaveBoard)
      forwardingLabels).any (fun s => s.program.isForwarding) = true := by
  decide +kernel

/-- Both Game Boys have been initialized and the first byte has been forwarded. -/
theorem game_boys_linked_forwarding :
    ∃ s : BridgeState PokemonGen1LinkInitializer fun _ => Byte, s.program.isForwarding = true ∧
      ∃ xs, (run pokemonGen1 {}).Transcript (.entering1 {} none) xs s.program ∧
        Bridged pokemonGen1 {} {} xs ∧ ∀ i,
        got i xs = answers slaveGame.device 2 (sent i xs) ∧
        ∃ pending, (s.parts i).gameBoy = after slaveGame.device 2 (sent i xs ++ pending) ∧
          (pending = [] ∨ ∃ a, pending = [a] ∧ s.waiting = some i ∧
            (run pokemonGen1 {}).next s.program = some (i, a)) := by
  obtain ⟨s, hreach, hforwarding⟩ := exists_reachable_of_exec forwarding_reached
  exact ⟨s, hforwarding, game_boys_linked waits_slaveBoards hreach⟩

/-- While the server waits for a client and nobody on that side fails, the answer is on its way:
after at most fifteen steps of that side it can be received, in whatever order with those of
the others. -/
theorem client_answers (hwaits : ∀ i, Waits (game i) (boards i) (g₀ i))
    (h : Reachable (Fires (bridgeStep P link2 game)) (bridgeStart link1 boards) s)
    (hrunning : s.running = true) (hwaiting : s.waiting = some i)
    (halive : (s.parts i).Alive) :
    ((∃ s', bridgeStep P link2 game s .receive = some s') ∨
      ∃ l s', bridgeStep P link2 game s (.part i l) = some s' ∧ (s'.parts i).Alive) ∧
    ∀ ls s', Run (Fires (bridgeStep P link2 game)) s ls s' → (s'.parts i).Alive →
      (∀ l ∈ ls, l.isReceive = false) → ls.countP (Label.isPart i) ≤ 15 := by
  obtain ⟨xs, hseq⟩ := bridge_sequential hwaits h
  have hresponds := responds_client (game i)
  constructor
  · rcases hseq.progress (c := fun i => gbSerialTCPClient (game i)) hresponds hrunning hwaiting
      halive with hreceive | ⟨l, s', hstep, hs', _⟩
    · exact .inl hreceive
    · exact .inr ⟨l, s', hstep, hs'⟩
  · intro ls s' hrun hs' hreceive
    obtain ⟨_, hle⟩ := countP_part_le (c := fun i => gbSerialTCPClient (game i))
      (R := fun i => ClientPhase (game i)) hresponds hrun hwaiting hreceive hs'
    have hbound := bounded_client (game i)
    have hrank : Relayed.rank Link.rank 7 (s.parts i) ≤ 15 := by
      cases hseq.stands with
      | ready hnone => simp [hwaiting] at hnone
      | asked hi _ hR =>
          cases hwaiting.symm.trans hi
          exact hbound.asked hR
      | answered hi _ hR =>
          cases hwaiting.symm.trans hi
          exact Nat.le_trans (hbound.answered hR) (by omega)
    omega

/-- The server has just sent its first byte. -/
theorem client_answers_first :
    ∃ s : BridgeState PokemonGen1LinkInitializer fun _ => Byte, s.waiting = some .client1 ∧
      ∀ ls s', Run (Fires (bridgeStep pokemonGen1 {} fun _ => slaveGame)) s ls s' →
        (s'.parts .client1).Alive → (∀ l ∈ ls, l.isReceive = false) →
        ls.countP (Label.isPart .client1) ≤ 15 := by
  have hstep : exec (bridgeStep pokemonGen1 {} fun _ => slaveGame)
      (bridgeStart {} fun _ => slaveBoard) [.send] = some
        { program := .entering1 {} none, waiting := some .client1
          parts := Function.update (fun _ => connect slaveBoard) .client1
            { connect slaveBoard with requests := [1] } } := rfl
  refine ⟨_, rfl, (client_answers waits_slaveBoards (reachable_of_exec hstep) rfl rfl ?_).2⟩
  exact ⟨rfl, rfl, rfl⟩

end Bridge

end GbPlay.Tools.Bridge
