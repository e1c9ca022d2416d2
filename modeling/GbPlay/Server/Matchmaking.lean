import GbPlay.Server.LobbyInvariant
import GbPlay.Server.Sessions

/-!
# The lobby of the server

The lobby is what remains of the server when its sessions are no more than their
clients: `Matches` relates the two, and the lobby follows every run of the server.
Clients are therefore paired in the order of their connections.
-/

namespace GbPlay.Server.Matchmaking

open GbPlay.Library GbPlay.Library.Runs GbPlay.Server.Client GbPlay.Server.Sessions
open GbPlay.Server.Tetris.Effects GbPlay.Server.Tetris.Renaming
open GbPlay.Server.Tetris.Model hiding Label init step
open GbPlay.Server.Tetris.Sync (draws₀)

structure Matches (s : State) (l : Lobby.State) : Prop where
  sessions : l.sessions = s.sessions
  objects : l.objects = s.games.map (·.session.toGameSession)
  placed : l.connections.map Lobby.Connection.session = s.connections
  socket : ∀ (c : ClientId) (conn : Lobby.Connection) (w : World),
    l.connections[c]? = some conn → s.games[conn.session]? = some w →
      conn.client.socket = (w.client c).socket

variable {s s' : State} {l l' : Lobby.State} {w w' : World} {ls : List Label} {i : Nat}
  {c : ClientId}

theorem matches_init : Matches init Lobby.init := by
  constructor
  case socket =>
      intro c conn w hconn
      cases hconn
  all_goals rfl

/-! ## The sockets of a session -/

theorem Matches.object (h : Matches s l) (hw : s.games[i]? = some w) :
    l.objects[i]? = some w.session.toGameSession := by
  rw [h.objects, List.getElem?_map, hw]
  rfl

theorem Matches.session (h : Matches s l) {conn : Lobby.Connection}
    (hconn : l.connections[c]? = some conn) : s.connections[c]? = some conn.session := by
  rw [← h.placed, List.getElem?_map, hconn]
  rfl

/-- Session `i` takes a step that only changes its own sockets. -/
theorem Matches.update (h : Matches s l) (hw : s.games[i]? = some w)
    {sessions : OrderedMap String Nat} (hsessions : l'.sessions = sessions)
    (hobjects : l'.objects = l.objects.set i w'.session.toGameSession)
    (hplaced : l'.connections.map Lobby.Connection.session =
      l.connections.map Lobby.Connection.session)
    (hown : ∀ (c : ClientId) (conn conn' : Lobby.Connection),
      l.connections[c]? = some conn → l'.connections[c]? = some conn' → conn.session = i →
        conn.client.socket = (w.client c).socket → conn'.client.socket = (w'.client c).socket)
    (hother : ∀ (c : ClientId) (conn conn' : Lobby.Connection),
      l.connections[c]? = some conn → l'.connections[c]? = some conn' → conn.session ≠ i →
        conn'.client.socket = conn.client.socket) :
    Matches { s with sessions, games := s.games.set i w' } l' := by
  constructor
  case sessions => exact hsessions
  case objects => rw [hobjects, h.objects, List.map_set]
  case placed => rw [hplaced, h.placed]
  case socket =>
      intro c conn' u hconn' hu
      have hsession : (l.connections.map Lobby.Connection.session)[c]? = some conn'.session := by
        rw [← hplaced, List.getElem?_map, hconn']
        rfl
      rw [List.getElem?_map, Option.map_eq_some_iff] at hsession
      obtain ⟨conn, hconn, hsame⟩ := hsession
      rcases (getElem?_set_iff hw).mp hu with ⟨hi, rfl⟩ | ⟨hne, hu⟩
      · have hi' : conn.session = i := hsame.trans hi
        exact hown c conn conn' hconn hconn' hi' (h.socket c conn w hconn (hi' ▸ hw))
      · rw [hother c conn conn' hconn hconn' (hsame ▸ hne)]
        exact h.socket c conn u hconn (hsame ▸ hu)

theorem session_disconnectAll (conns : List Lobby.Connection) (cs : List ClientId) :
    (Lobby.disconnectAll conns cs).map Lobby.Connection.session =
      conns.map Lobby.Connection.session := by
  apply List.ext_getElem?
  intro c
  simp only [Lobby.disconnectAll, List.getElem?_map, List.getElem?_mapIdx, Option.map_map]
  congr 1
  funext conn
  simp only [Function.comp_apply]
  split <;> rfl

theorem socket_disconnectAll_eq (conns : List Lobby.Connection) (cs : List ClientId)
    {conn conn' : Lobby.Connection} (hconn : conns[c]? = some conn)
    (hconn' : (Lobby.disconnectAll conns cs)[c]? = some conn') :
    conn'.client.socket =
      if c ∈ cs then conn.client.socket.destroy else conn.client.socket := by
  rw [Lobby.disconnectAll, List.getElem?_mapIdx, hconn] at hconn'
  obtain rfl := Option.some.inj hconn'
  split <;> rfl

/-! ## A step of a session -/

theorem set_of_getElem? {α : Type*} {xs : List α} {x : α} (h : xs[i]? = some x) :
    xs.set i x = xs := by
  obtain ⟨hlt, rfl⟩ := List.getElem?_eq_some_iff.mp h
  exact List.set_getElem_self hlt

theorem Matches.kept (h : Matches s l) (hw : s.games[i]? = some w) (hagrees : Agrees w w') :
    Matches (afterStep s i w w') l := by
  have hended : w.session.ended = w'.session.ended := by rw [hagrees.session]
  have hobject : l.objects = l.objects.set i w'.session.toGameSession := by
    rw [hagrees.session]
    exact (set_of_getElem? (h.object hw)).symm
  have hupdated : Matches { s with games := s.games.set i w' } l := by
    refine h.update hw h.sessions hobject rfl ?_ ?_
    · intro c conn conn' hconn hconn' _ hsocket
      obtain rfl := Option.some.inj (hconn.symm.trans hconn')
      rw [hagrees.socket c, hsocket]
    · intro c conn conn' hconn hconn' _
      rw [Option.some.inj (hconn.symm.trans hconn')]
  simpa [afterStep, hended] using hupdated

theorem Matches.disconnected (h : Matches s l) (hw : s.games[i]? = some w)
    (hc : s.connections[c]? = some i)
    (hagrees : Agrees { w with client := disconnectAll w.client [c] } w') :
    Matches (afterStep s i w w')
      { l with connections := l.connections.modify c Lobby.Connection.disconnect } := by
  have hended : w.session.ended = w'.session.ended := by rw [hagrees.session]
  have hsocket {d : ClientId} {conn conn' : Lobby.Connection}
      (hconn : l.connections[d]? = some conn)
      (hconn' : (l.connections.modify c Lobby.Connection.disconnect)[d]? = some conn') :
      conn' = if c = d then conn.disconnect else conn := by
    rw [List.getElem?_modify, hconn] at hconn'
    exact (Option.some.inj hconn').symm
  have hobject : l.objects = l.objects.set i w'.session.toGameSession := by
    rw [hagrees.session]
    exact (set_of_getElem? (h.object hw)).symm
  have hplaced : (l.connections.modify c Lobby.Connection.disconnect).map
      Lobby.Connection.session = l.connections.map Lobby.Connection.session := by
    apply List.ext_getElem?
    intro d
    rw [List.getElem?_map, List.getElem?_map, List.getElem?_modify]
    cases l.connections[d]? with
    | none => rfl
    | some conn =>
        simp only [Option.map_some]
        split <;> rfl
  have hupdated : Matches { s with games := s.games.set i w' }
      { l with connections := l.connections.modify c Lobby.Connection.disconnect } := by
    refine h.update hw h.sessions hobject hplaced ?_ ?_
    · intro d conn conn' hconn hconn' _ hsame
      rw [hsocket hconn hconn', hagrees.socket d]
      by_cases hd : c = d
      · subst hd
        simp [disconnectAll, Lobby.Connection.disconnect, hsame]
      · simp [disconnectAll, hd, Ne.symm hd, hsame]
    · intro d conn conn' hconn hconn' hne
      rw [hsocket hconn hconn', if_neg]
      rintro rfl
      exact hne (Option.some.inj ((h.session hconn).symm.trans hc))
  simpa [afterStep, hended] using hupdated

theorem Matches.ended (h : Matches s l) (hw : s.games[i]? = some w)
    (hown : ∀ c ∈ w.session.disconnectedByEnd, s.connections[c]? = some i)
    (hagrees : Agrees w.endSession w') :
    Matches (afterStep s i w w') (Lobby.endSession l i) := by
  have hobject := h.object hw
  cases hended : w.session.ended with
  | true =>
      have hend : w.endSession = w := by simp [World.endSession, hended]
      have hlobby : Lobby.endSession l i = l := by simp [Lobby.endSession, hobject, hended]
      rw [hlobby]
      exact h.kept hw (hend ▸ hagrees)
  | false =>
      have hend : w.endSession = { w with
          session := { w.session with toGameSession := w.session.toGameSession.endSession }
          client := disconnectAll w.client w.session.disconnectedByEnd
          phase := w.phase ++ [.ended] } := by
        simp [World.endSession, hended]
      have hlobby : Lobby.endSession l i = {
          sessions := l.sessions.erase w.session.id
          objects := l.objects.set i w.session.toGameSession.endSession
          connections := Lobby.disconnectAll l.connections w.session.disconnectedByEnd
          ends := l.ends ++ [i] } := by
        simp [Lobby.endSession, hobject, hended]
      have hsession : w'.session.toGameSession = w.session.toGameSession.endSession := by
        rw [hagrees.session, hend]
      have hended' : w'.session.ended = true := by
        rw [hsession]
        exact GameSession.endSession_ended _
      have hupdated : Matches
          { s with sessions := l.sessions.erase w.session.id, games := s.games.set i w' }
          (Lobby.endSession l i) := by
        rw [hlobby]
        refine h.update hw rfl (by rw [hsession]) (session_disconnectAll _ _) ?_ ?_
        · intro c conn conn' hconn hconn' _ hsame
          rw [socket_disconnectAll_eq _ _ hconn hconn', hagrees.socket c, hend, hsame]
          simp only [disconnectAll]
          split <;> rfl
        · intro c conn conn' hconn hconn' hne
          rw [socket_disconnectAll_eq _ _ hconn hconn', if_neg]
          intro hc
          exact hne (Option.some.inj ((h.session hconn).symm.trans (hown c hc)))
      simpa [afterStep, hended, hended', h.sessions] using hupdated

/-- The connection after the close event of its socket. -/
def closeConnection (conn : Lobby.Connection) : Lobby.Connection :=
  { conn with client := { conn.client with socket := .closed } }

theorem Matches.closed (h : Matches s l) (hw : s.games[i]? = some w) {conn : Lobby.Connection}
    (hconn : l.connections[c]? = some conn) (hi : conn.session = i)
    (hown : ∀ c ∈ w.session.disconnectedByEnd, s.connections[c]? = some i)
    (hagrees : Agrees { w with client := setSocket w.client c .closed }.endSession w') :
    Matches (afterStep s i w w') (Lobby.endSession { l with
      connections := l.connections.set c (closeConnection conn) } i) := by
  have hlt : i < s.games.length := (List.getElem?_eq_some_iff.mp hw).1
  have hcases {d : ClientId} {conn₀ conn' : Lobby.Connection}
      (hconn₀ : l.connections[d]? = some conn₀)
      (hconn' : (l.connections.set c (closeConnection conn))[d]? = some conn') :
      (d = c ∧ conn' = closeConnection conn) ∨ (d ≠ c ∧ conn' = conn₀) := by
    rcases (getElem?_set_iff hconn).mp hconn' with ⟨hd, rfl⟩ | ⟨hne, hsame⟩
    · exact .inl ⟨hd, rfl⟩
    · exact .inr ⟨hne, Option.some.inj (hsame.symm.trans hconn₀)⟩
  have hplaced : (l.connections.set c (closeConnection conn)).map Lobby.Connection.session =
      l.connections.map Lobby.Connection.session := by
    rw [List.map_set]
    apply set_of_getElem?
    rw [List.getElem?_map, hconn]
    rfl
  have hclosed : Matches
      { s with games := s.games.set i { w with client := setSocket w.client c .closed } }
      { l with connections := l.connections.set c (closeConnection conn) } := by
    refine h.update hw h.sessions (set_of_getElem? (h.object hw)).symm hplaced ?_ ?_
    · intro d conn₀ conn' hconn₀ hconn' _ hsame
      rcases hcases hconn₀ hconn' with ⟨rfl, rfl⟩ | ⟨hne, rfl⟩
      · simp [setSocket, closeConnection]
      · simp [setSocket, hne, hsame]
    · intro d conn₀ conn' hconn₀ hconn' hother
      rcases hcases hconn₀ hconn' with ⟨rfl, rfl⟩ | ⟨_, rfl⟩
      · obtain rfl := Option.some.inj (hconn.symm.trans hconn₀)
        exact absurd hi hother
      · rfl
  have hended := hclosed.ended (List.getElem?_set_self hlt) hown hagrees
  simpa [afterStep] using hended

theorem connections_of_joined (h : Isolated s ls i w) (hc : c ∈ w.joined) :
    s.connections[c]? = some i := by
  rw [h.joined, joinedBy, List.mem_filter, decide_eq_true_iff] at hc
  exact hc.2

theorem connections_of_disconnectedByEnd (h : Isolated s ls i w)
    (hc : c ∈ w.session.disconnectedByEnd) : s.connections[c]? = some i := by
  obtain ⟨id, w₀, hreachable, rfl⟩ := h.reachable
  have hjoined : c ∈ w₀.joined :=
    mem_joined_of_disconnectedByEnd (Tetris.Sync.synced_reachable hreachable) hc
  exact connections_of_joined h hjoined

/-- The lobby follows a step of a session. -/
theorem Matches.game (h : Matches s l) (hinv : Inv ls s) {a : Tetris.Model.Label}
    (hstep : step s (.game i a) = some s') :
    ∃ l', Reachable (Fires Lobby.step) l l' ∧ Matches s' l' := by
  obtain ⟨w, w', hw, hjoin, hfire, rfl⟩ := step_game hstep
  have hisolated := hinv.isolated i w hw
  have hown (c : ClientId) (hc : c ∈ w.session.disconnectedByEnd) : s.connections[c]? = some i :=
    connections_of_disconnectedByEnd hisolated hc
  cases hisolated.effect hfire hjoin with
  | none hagrees => exact ⟨l, .refl l, h.kept hw hagrees⟩
  | disconnected c hc hagrees =>
      exact ⟨_, .single (l := Lobby.Label.timeout c) rfl,
        h.disconnected hw (connections_of_joined hisolated hc) hagrees⟩
  | ended hagrees =>
      exact ⟨_, .single (l := Lobby.Label.handlerError i) rfl, h.ended hw hown hagrees⟩
  | closed c hc hopen hagrees =>
      have hplaced := connections_of_joined hisolated hc
      rw [← h.placed, List.getElem?_map, Option.map_eq_some_iff] at hplaced
      obtain ⟨conn, hconn, rfl⟩ := hplaced
      have hclosed : conn.client.socket ≠ .closed := h.socket c conn w hconn hw ▸ hopen
      refine ⟨_, .single (l := Lobby.Label.close c) ?_, h.closed hw hconn rfl hown hagrees⟩
      simp only [Fires, Lobby.step, hconn, if_neg hclosed, closeConnection]

/-! ## A connection -/

theorem Matches.findJoinable (h : Matches s l) :
    Lobby.findJoinable l = Sessions.findJoinable s := by
  simp only [Lobby.findJoinable, Sessions.findJoinable, h.sessions, h.objects, List.getElem?_map,
    Option.any_map]

theorem Matches.freshId (h : Matches s l) (draws : List String) :
    Lobby.freshId l draws = Sessions.freshId s draws := by
  rw [Lobby.freshId, Sessions.freshId, h.sessions]

theorem Matches.createSession (h : Matches s l) (hinv : Inv ls s) (id : String) :
    Matches (Sessions.createSession s id) (Lobby.createSession l id) := by
  constructor
  case sessions =>
      rw [Lobby.createSession, Sessions.createSession, h.sessions, h.objects, List.length_map]
  case objects =>
      rw [Lobby.createSession, Sessions.createSession, h.objects, List.map_append]
      rfl
  case placed => exact h.placed
  case socket =>
      intro c conn u hconn hu
      have hlt : conn.session < s.games.length :=
        hinv.known conn.session (List.mem_of_getElem? (h.session hconn))
      rw [Sessions.createSession, List.getElem?_append_left hlt] at hu
      exact h.socket c conn u hconn hu

/-- The client of a new connection has an open socket. -/
theorem socket_of_new (h : Isolated s ls i w) :
    (w.client s.connections.length).socket = .connected := by
  have hnew : s.connections.length ∉ w.joined := by
    intro hmem
    have hlt := (List.getElem?_eq_some_iff.mp (connections_of_joined h hmem)).1
    exact Nat.lt_irrefl _ hlt
  obtain ⟨id, w₀, hreachable, rfl⟩ := h.reachable
  exact untouched_reachable hreachable _ hnew

theorem Matches.addClient (h : Matches s l) (hinv : Inv ls s)
    (hadd : Sessions.addClient s i = some s') : Matches s' (Lobby.joinSession l i) := by
  obtain ⟨w, w', hw, hstep, rfl⟩ := addClient_eq_some hadd
  obtain ⟨_, _, rfl⟩ := step_join hstep
  have hlength : l.connections.length = s.connections.length := by
    rw [← h.placed, List.length_map]
  constructor
  case sessions => exact h.sessions
  case objects =>
      rw [Lobby.joinSession, List.map_set, ← h.objects, List.modify_eq_set_getElem?, h.object hw,
        hlength]
      rfl
  case placed =>
      rw [Lobby.joinSession, List.map_append, h.placed]
      rfl
  case socket =>
      intro (c : Nat) conn u hconn hu
      rw [Lobby.joinSession, List.getElem?_append] at hconn
      split at hconn
      · rcases (getElem?_set_iff hw).mp hu with ⟨hi, rfl⟩ | ⟨_, hu⟩
        · exact h.socket c conn w hconn (hi ▸ hw)
        · exact h.socket c conn u hconn hu
      · rename_i hge
        have hlast := (List.getElem?_eq_some_iff.mp hconn).1
        rw [List.length_singleton] at hlast
        have hc : c = s.connections.length := by omega
        subst hc
        rw [← hlength, Nat.sub_self, List.getElem?_cons_zero, Option.some.injEq] at hconn
        subst hconn
        rcases (getElem?_set_iff hw).mp hu with ⟨_, rfl⟩ | ⟨hne, _⟩
        · exact (socket_of_new (hinv.isolated i w hw)).symm
        · exact absurd rfl hne

/-- The lobby follows a connection. -/
theorem Matches.connection (h : Matches s l) (hinv : Inv ls s) {draws : List String}
    (hstep : step s (.connection draws) = some s') :
    ∃ l', Reachable (Fires Lobby.step) l l' ∧ Matches s' l' := by
  simp only [step] at hstep
  split at hstep
  · rename_i i hfind
    have hlobby : Lobby.step l (.connection draws) = some (Lobby.joinSession l i) := by
      simp only [Lobby.step, h.findJoinable, hfind]
    exact ⟨_, .single hlobby, h.addClient hinv hstep⟩
  · rename_i hfind
    obtain ⟨id, hid, hadd⟩ := Option.bind_eq_some_iff.mp hstep
    have hlobby : Lobby.step l (.connection draws) =
        some (Lobby.joinSession (Lobby.createSession l id) s.games.length) := by
      simp only [Lobby.step, h.findJoinable, hfind, h.freshId, hid, h.objects, List.length_map,
        Option.map_some]
    exact ⟨_, .single hlobby,
      (h.createSession hinv id).addClient (hinv.createSession id) hadd⟩

theorem matches_run (h : Run (Fires step) init ls s) :
    ∃ l, Reachable (Fires Lobby.step) Lobby.init l ∧ Matches s l := by
  refine h.simulated matches_init ?_
  intro ks t a u l hrun hstep hmatches
  have hinv := inv_run hrun
  cases a with
  | connection draws => exact hmatches.connection hinv hstep
  | game i a => exact hmatches.game hinv hstep

theorem entry_iff (h : Run (Fires step) init ls s) (id : String) (i : Nat) :
    (id, i) ∈ s.sessions.entries ↔
      ∃ w, s.games[i]? = some w ∧ w.session.ended = false ∧ w.session.id = id := by
  obtain ⟨l, hreachable, hmatches⟩ := matches_run h
  have hlobby := LobbyInvariant.inv_of_reachable hreachable
  rw [← hmatches.sessions, hlobby.entry, hmatches.objects]
  simp

/-- The lobby follows every run of the server; so the map of the server holds exactly the
sessions that have not ended, each under its id, whatever they do and in whatever order. -/
theorem server_refines_lobby (h : Run (Fires step) init ls s) :
    (∃ l, Reachable (Fires Lobby.step) Lobby.init l ∧ Matches s l) ∧
      ∀ id i, (id, i) ∈ s.sessions.entries ↔
        ∃ w, s.games[i]? = some w ∧ w.session.ended = false ∧ w.session.id = id :=
  ⟨matches_run h, entry_iff h⟩

/-- Two players meet and a third one waits, then one of the two hangs up; a fourth client
plays with the third, and the fifth opens a session under the id that has become free. -/
theorem server_refines_lobby_id_reused :
    ∃ s : State, s.sessions.entries = [("BBBB", 1), ("AAAA", 2)] ∧
      ∃ w : World, s.games[2]? = some w ∧ w.session.ended = false ∧ w.session.id = "AAAA" := by
  have hrun : (exec step init
      [.connection ["AAAA"], .connection [], .connection ["AAAA", "BBBB"],
        .game 0 (.tick draws₀ 0 0), .game 1 (.tick draws₀ 0 0), .game 0 (.close 1),
        .connection [], .connection ["BBBB", "AAAA"]]).any
      (fun s => decide (s.sessions.entries = [("BBBB", 1), ("AAAA", 2)])) = true := by
    decide +kernel
  obtain ⟨s, hs, hp⟩ := exists_run_of_exec hrun
  rw [decide_eq_true_iff] at hp
  refine ⟨s, hp, ((server_refines_lobby hs).2 "AAAA" 2).mp ?_⟩
  rw [hp]
  exact List.mem_cons_of_mem _ List.mem_cons_self

/-! ## Players -/

theorem joinable_unique (h : Run (Fires step) init ls s) {j : Nat} (hw : s.games[i]? = some w)
    (hw' : s.games[j]? = some w') (hjoin : w.session.isJoinable = true)
    (hjoin' : w'.session.isJoinable = true) : i = j := by
  obtain ⟨l, hreachable, hmatches⟩ := matches_run h
  exact (LobbyInvariant.inv_of_reachable hreachable).joinable i j _ _ (hmatches.object hw)
    (hmatches.object hw') hjoin hjoin'

/-- A connection finds the session that can be joined, if there is one. -/
theorem findJoinable_eq_some_iff (h : Run (Fires step) init ls s) :
    findJoinable s = some i ↔ ∃ w, s.games[i]? = some w ∧ w.session.isJoinable = true := by
  constructor
  · intro hfind
    simpa only [Option.any_eq_true] using List.find?_some hfind
  · rintro ⟨w, hw, hjoin⟩
    have hlive : w.session.ended = false := ((GameSession.isJoinable_iff _).mp hjoin).1
    have hmem : (w.session.id, i) ∈ s.sessions.entries := (entry_iff h _ _).mpr ⟨w, hw, hlive, rfl⟩
    cases hfind : findJoinable s with
    | none =>
        have hall := List.find?_eq_none.mp hfind i (List.mem_map_of_mem hmem)
        simp [hw, hjoin] at hall
    | some j =>
        have hfound := List.find?_some hfind
        rw [Option.any_eq_true] at hfound
        obtain ⟨w', hw', hjoin'⟩ := hfound
        rw [joinable_unique h hw hw' hjoin hjoin']

/-- Who has joined is one client or two that have connected one after the other, and a session
that waits for another player waits for the next connection. -/
structure Paired (s : State) : Prop where
  joined : ∀ (i : Nat) (w : World), s.games[i]? = some w →
    ∃ c, w.joined = [c] ∨ w.joined = [c, c + 1]
  waiting : ∀ (i : Nat) (w : World), s.games[i]? = some w → w.session.isJoinable = true →
    ∃ c, w.joined = [c] ∧ c + 1 = s.connections.length

theorem isJoinable_of_effect (h : Effect w w') (hjoin : w'.session.isJoinable = true) :
    w.session.isJoinable = true := by
  have hended (u : World) : u.endSession.session.isJoinable = false := by
    unfold World.endSession
    split
    · rename_i hended
      simp [GameSession.isJoinable, hended]
    · simp [GameSession.isJoinable]
  cases h with
  | none hagrees => rwa [hagrees.session] at hjoin
  | disconnected c _ hagrees => rwa [hagrees.session] at hjoin
  | ended hagrees =>
      rw [hagrees.session, hended] at hjoin
      cases hjoin
  | closed c _ _ hagrees =>
      rw [hagrees.session, hended] at hjoin
      cases hjoin

/-- While it runs, the clients of a session are those that have joined it. -/
theorem clients_eq_joined (h : Isolated s ls i w) (hlive : w.session.ended = false) :
    w.session.clients = w.joined ∧ w.session.requiredClientCount = 2 := by
  obtain ⟨id, w₀, hreachable, rfl⟩ := h.reachable
  have hsynced := Tetris.Sync.synced_reachable hreachable
  have hlive₀ : w₀.session.ended = false := hlive
  have hmembers := hsynced.members
  rw [hlive₀] at hmembers
  exact ⟨hmembers, hsynced.required⟩

/-- The newest client completes the pair of the one that waits. -/
theorem Paired.join (h : Paired s) (hinv : Inv ls s) (hadd : addClient s i = some s')
    (hsole : ∀ (j : Nat) (w : World), s.games[j]? = some w → w.session.isJoinable = true → j = i) :
    Paired s' := by
  obtain ⟨w, w', hw, hstep, rfl⟩ := addClient_eq_some hadd
  obtain ⟨hjoin, _, rfl⟩ := step_join hstep
  obtain ⟨c, hjoined, hc⟩ := h.waiting i w hw hjoin
  constructor
  · intro j u hu
    rcases (getElem?_set_iff hw).mp hu with ⟨_, rfl⟩ | ⟨_, hu⟩
    · exact ⟨c, .inr (by simp [hjoined, hc])⟩
    · exact h.joined j u hu
  · intro j u hu hjoin'
    rcases (getElem?_set_iff hw).mp hu with ⟨_, rfl⟩ | ⟨hne, hu⟩
    · have hlive : w.session.ended = false := ((GameSession.isJoinable_iff _).mp hjoin).1
      obtain ⟨hclients, hrequired⟩ := clients_eq_joined (hinv.isolated i w hw) hlive
      rw [GameSession.isJoinable_iff] at hjoin'
      simp [GameSession.addClient, hclients, hrequired, hjoined] at hjoin'
    · exact absurd (hsole j u hu hjoin') hne

/-- The newest client opens a session of its own. -/
theorem Paired.openSession (h : Paired s) {id : String}
    (hadd : addClient (createSession s id) s.games.length = some s')
    (hnone : ∀ (j : Nat) (w : World), s.games[j]? = some w → w.session.isJoinable = false) :
    Paired s' := by
  obtain ⟨w, w', hw, hstep, rfl⟩ := addClient_eq_some hadd
  obtain ⟨_, _, rfl⟩ := step_join hstep
  have hnew : World.renamed id Tetris.Model.init = w := by
    simpa [createSession] using hw
  subst hnew
  have hold {j : Nat} {u : World} (hne : j ≠ s.games.length)
      (hu : (createSession s id).games[j]? = some u) : s.games[j]? = some u := by
    rw [createSession, List.getElem?_append] at hu
    split at hu
    · exact hu
    · have hlt := (List.getElem?_eq_some_iff.mp hu).1
      rw [List.length_singleton] at hlt
      omega
  constructor
  · intro j u hu
    rcases (getElem?_set_iff hw).mp hu with ⟨_, rfl⟩ | ⟨hne, hu⟩
    · exact ⟨s.connections.length, .inl rfl⟩
    · exact h.joined j u (hold hne hu)
  · intro j u hu hjoin
    rcases (getElem?_set_iff hw).mp hu with ⟨_, rfl⟩ | ⟨hne, hu⟩
    · refine ⟨s.connections.length, rfl, ?_⟩
      rw [List.length_append]
      rfl
    · rw [hnone j u (hold hne hu)] at hjoin
      cases hjoin

theorem Paired.game (h : Paired s) (hinv : Inv ls s) {a : Tetris.Model.Label}
    (hstep : step s (.game i a) = some s') : Paired s' := by
  obtain ⟨w, w', hw, hjoin, hfire, rfl⟩ := step_game hstep
  have heffect := (hinv.isolated i w hw).effect hfire hjoin
  constructor
  · intro j u hu
    rcases (getElem?_set_iff hw).mp hu with ⟨_, rfl⟩ | ⟨_, hu⟩
    · rw [heffect.joined]
      exact h.joined i w hw
    · exact h.joined j u hu
  · intro j u hu hjoin'
    rcases (getElem?_set_iff hw).mp hu with ⟨_, rfl⟩ | ⟨_, hu⟩
    · rw [heffect.joined]
      exact h.waiting i w hw (isJoinable_of_effect heffect hjoin')
    · exact h.waiting j u hu hjoin'

theorem paired_run (h : Run (Fires step) init ls s) : Paired s := by
  induction h with
  | nil => constructor <;> simp [init]
  | @snoc ls a t u hrun hstep ih =>
      have hinv := inv_run hrun
      cases a with
      | game i a => exact ih.game hinv hstep
      | connection draws =>
          simp only [Fires, step] at hstep
          split at hstep
          · rename_i i hfind
            refine ih.join hinv hstep ?_
            intro j w hw hjoin
            have hj := (findJoinable_eq_some_iff hrun).mpr ⟨w, hw, hjoin⟩
            exact Option.some.inj (hj.symm.trans hfind)
          · rename_i hfind
            obtain ⟨id, _, hadd⟩ := Option.bind_eq_some_iff.mp hstep
            refine ih.openSession hadd ?_
            intro j w hw
            cases hjoin : w.session.isJoinable with
            | false => rfl
            | true =>
                rw [(findJoinable_eq_some_iff hrun).mpr ⟨w, hw, hjoin⟩] at hfind
                cases hfind

/-- Players are paired in the order in which they connect, and every connection is given to
exactly one session, however the sessions take their steps and end meanwhile. -/
theorem players_paired (h : Run (Fires step) init ls s) :
    Paired s ∧ ∀ c < s.connections.length,
      ∃! i : Nat, ∃ w : World, s.games[i]? = some w ∧ c ∈ w.joined := by
  have hinv := inv_run h
  refine ⟨paired_run h, fun c hc => ?_⟩
  have hplaced : s.connections[c]? = some s.connections[c] := List.getElem?_eq_getElem hc
  have hlt : s.connections[c] < s.games.length := hinv.known _ (List.getElem_mem hc)
  have hgame : s.games[s.connections[c]]? = some s.games[s.connections[c]] :=
    List.getElem?_eq_getElem hlt
  refine ⟨s.connections[c], ⟨_, hgame, ?_⟩, ?_⟩
  · rw [(hinv.isolated _ _ hgame).joined, joinedBy, List.mem_filter, List.mem_range,
      decide_eq_true_iff]
    exact ⟨hc, hplaced⟩
  · rintro i ⟨w, hw, hmem⟩
    exact Option.some.inj ((connections_of_joined (hinv.isolated i w hw) hmem).symm.trans hplaced)

/-- The first client hangs up before another one has connected; so the next two play. -/
theorem players_paired_after_hangup :
    ∃ (s : State) (w : World), s.games[1]? = some w ∧ w.joined = [1, 2] ∧ Paired s := by
  have hrun : (exec step init
      [.connection ["AAAA"], .game 0 (.tick draws₀ 0 0), .game 0 (.close 0),
        .connection ["AAAA"], .connection []]).any
      (fun s => decide ((s.games[1]?).map (fun w => w.joined) = some [1, 2])) = true := by
    decide +kernel
  obtain ⟨s, hs, hp⟩ := exists_run_of_exec hrun
  rw [decide_eq_true_iff, Option.map_eq_some_iff] at hp
  obtain ⟨w, hw, hjoined⟩ := hp
  exact ⟨s, w, hw, hjoined, (players_paired hs).1⟩

end GbPlay.Server.Matchmaking
