import GbPlay.Server.Lobby

/-!
# The lobby invariant

Three things happen to the lobby: a client joins a joinable session, a client
opens a new session, and a session ends.  Each keeps `Inv`; sockets that are
destroyed or closed on the way only matter for clients of ended sessions.
-/

namespace GbPlay.Server.LobbyInvariant

open GbPlay.Library GbPlay.Library.Runs GbPlay.Server.Client GbPlay.Server.Lobby

structure Inv (l : State) : Prop where
  entry : ∀ id s, (id, s) ∈ l.sessions.entries ↔
    ∃ obj, l.objects[s]? = some obj ∧ obj.ended = false ∧ obj.id = id
  required : ∀ (s : Nat) obj, l.objects[s]? = some obj → obj.requiredClientCount = 2
  size : ∀ (s : Nat) obj, l.objects[s]? = some obj → obj.ended = false →
    1 ≤ obj.clients.length ∧ obj.clients.length ≤ 2
  emptied : ∀ (s : Nat) obj, l.objects[s]? = some obj → obj.ended = true → obj.clients = []
  joinable : ∀ (s s' : Nat) obj obj', l.objects[s]? = some obj → l.objects[s']? = some obj' →
    obj.isJoinable = true → obj'.isJoinable = true → s = s'
  member : ∀ (s : Nat) obj c, l.objects[s]? = some obj → c ∈ obj.clients →
    ∃ conn, l.connections[c]? = some conn ∧ conn.session = s
  placed : ∀ (c : Nat) conn, l.connections[c]? = some conn →
    ∃ obj, l.objects[conn.session]? = some obj ∧
      (obj.ended = false → c ∈ obj.clients) ∧
      (obj.ended = true → conn.client.socket ≠ .connected)
  ends : ∀ s, s ∈ l.ends ↔ ∃ obj, l.objects[s]? = some obj ∧ obj.ended = true
  ends_nodup : l.ends.Nodup

variable {l l' : State} {a : Label}

theorem inv_init : Inv init := by
  constructor <;> simp [init]

/-! ## Sockets -/

/-- Sockets that are destroyed or closed, with everything else as it was. -/
structure Quenched (conns conns' : List Connection) : Prop where
  forth : ∀ (c : Nat) conn, conns[c]? = some conn → ∃ conn', conns'[c]? = some conn' ∧
    conn'.session = conn.session
  back : ∀ (c : Nat) conn', conns'[c]? = some conn' → ∃ conn, conns[c]? = some conn ∧
    conn'.session = conn.session ∧
    (conn'.client.socket = .connected → conn.client.socket = .connected)

theorem Inv.quench (h : Inv l) {conns : List Connection} (hq : Quenched l.connections conns) :
    Inv { l with connections := conns } := by
  exact { h with
    member := by
      intro s obj c hobj hc
      obtain ⟨conn, hconn, hs⟩ := h.member s obj c hobj hc
      obtain ⟨conn', hconn', hs'⟩ := hq.forth c conn hconn
      exact ⟨conn', hconn', hs'.trans hs⟩
    placed := by
      intro c conn' hconn'
      obtain ⟨conn, hconn, hs, hsock⟩ := hq.back c conn' hconn'
      obtain ⟨obj, hobj, hlive, hended⟩ := h.placed c conn hconn
      rw [hs]
      exact ⟨obj, hobj, hlive, fun he hc => hended he (hsock hc)⟩ }

theorem quenched_modify (conns : List Connection) (c : ClientId) :
    Quenched conns (conns.modify c Connection.disconnect) := by
  constructor
  · intro d conn hconn
    refine ⟨if c = d then conn.disconnect else conn, ?_, ?_⟩
    · rw [List.getElem?_modify, hconn]
      split <;> simp_all
    · split <;> rfl
  · intro d conn' hconn'
    rw [List.getElem?_modify] at hconn'
    split at hconn'
    · obtain ⟨conn, hconn, rfl⟩ := Option.map_eq_some_iff.mp hconn'
      exact ⟨conn, hconn, rfl, by simp [Connection.disconnect]⟩
    · obtain ⟨conn, hconn, rfl⟩ := Option.map_eq_some_iff.mp hconn'
      exact ⟨conn, hconn, rfl, id⟩

theorem quenched_closed {conns : List Connection} {c : ClientId} {conn : Connection}
    (hc : conns[c]? = some conn) :
    Quenched conns
      (conns.set c { conn with client := { conn.client with socket := .closed } }) := by
  obtain ⟨hlt, rfl⟩ := List.getElem?_eq_some_iff.mp hc
  constructor
  · intro d conn hconn
    by_cases hd : c = d
    · subst hd
      obtain rfl : conns[c] = conn := by simpa [hlt] using hconn
      exact ⟨_, List.getElem?_set_self hlt, rfl⟩
    · exact ⟨conn, by rwa [List.getElem?_set_ne hd], rfl⟩
  · intro d conn' hconn'
    by_cases hd : c = d
    · subst hd
      rw [List.getElem?_set_self hlt, Option.some.injEq] at hconn'
      subst hconn'
      exact ⟨_, hc, rfl, by simp⟩
    · rw [List.getElem?_set_ne hd] at hconn'
      exact ⟨conn', hconn', rfl, id⟩

theorem quenched_disconnectAll (conns : List Connection) (cs : List ClientId) :
    Quenched conns (disconnectAll conns cs) := by
  constructor
  · intro d conn hconn
    refine ⟨if d ∈ cs then conn.disconnect else conn, ?_, ?_⟩
    · simp [disconnectAll, hconn]
    · split <;> rfl
  · intro d conn' hconn'
    rw [disconnectAll, List.getElem?_mapIdx] at hconn'
    obtain ⟨conn, hconn, rfl⟩ := Option.map_eq_some_iff.mp hconn'
    refine ⟨conn, hconn, ?_, ?_⟩
    · split <;> rfl
    · split <;> simp [Connection.disconnect]

theorem disconnectAll_socket {conns : List Connection} {cs : List ClientId} {c : ClientId}
    {conn : Connection} (hconn : (disconnectAll conns cs)[c]? = some conn) (hc : c ∈ cs) :
    conn.client.socket ≠ .connected := by
  rw [disconnectAll, List.getElem?_mapIdx] at hconn
  obtain ⟨conn₀, -, rfl⟩ := Option.map_eq_some_iff.mp hconn
  simp [hc, Connection.disconnect]

/-! ## A session ends -/

theorem getElem?_set_cases {α : Type*} {xs : List α} {i j : Nat} {x y : α}
    (h : (xs.set i x)[j]? = some y) : (j = i ∧ y = x) ∨ (j ≠ i ∧ xs[j]? = some y) := by
  rw [List.getElem?_set] at h
  split at h
  · rename_i hij
    split at h
    · exact .inl ⟨hij.symm, (Option.some.inj h).symm⟩
    · cases h
  · rename_i hij
    exact .inr ⟨fun hji => hij hji.symm, h⟩

theorem Inv.endLive (h : Inv l) {s : Nat} {obj : GameSession} (hobj : l.objects[s]? = some obj)
    (hlive : obj.ended = false) :
    Inv {
      sessions := l.sessions.erase obj.id
      objects := l.objects.set s obj.endSession
      connections := disconnectAll l.connections obj.disconnectedByEnd
      ends := l.ends ++ [s] } := by
  have hlt : s < l.objects.length := (List.getElem?_eq_some_iff.mp hobj).1
  have hself : (l.objects.set s obj.endSession)[s]? = some obj.endSession :=
    List.getElem?_set_self hlt
  have hentry : (obj.id, s) ∈ l.sessions.entries := (h.entry _ _).mpr ⟨obj, hobj, hlive, rfl⟩
  have hclients : obj.endSession.clients = [] := by simp [GameSession.endSession_of_live hlive]
  have hq := quenched_disconnectAll l.connections obj.disconnectedByEnd
  constructor
  case entry =>
    intro id s'
    rw [OrderedMap.mem_erase]
    constructor
    · rintro ⟨hmem, hne⟩
      obtain ⟨obj', hobj', hlive', hid⟩ := (h.entry id s').mp hmem
      have hs : s ≠ s' := by
        rintro rfl
        obtain rfl : obj = obj' := Option.some.inj (hobj.symm.trans hobj')
        exact hne hid.symm
      exact ⟨obj', by rwa [List.getElem?_set_ne hs], hlive', hid⟩
    · rintro ⟨obj', hobj', hlive', hid⟩
      rcases getElem?_set_cases hobj' with ⟨-, rfl⟩ | ⟨hne, hobj'⟩
      · simp at hlive'
      · have hmem := (h.entry id s').mpr ⟨obj', hobj', hlive', hid⟩
        refine ⟨hmem, ?_⟩
        rintro rfl
        exact hne (OrderedMap.value_unique hmem hentry)
  case required =>
    intro s' obj' hobj'
    rcases getElem?_set_cases hobj' with ⟨-, rfl⟩ | ⟨-, hobj'⟩
    · simpa using h.required s obj hobj
    · exact h.required s' obj' hobj'
  case size =>
    intro s' obj' hobj' hlive'
    rcases getElem?_set_cases hobj' with ⟨-, rfl⟩ | ⟨-, hobj'⟩
    · simp at hlive'
    · exact h.size s' obj' hobj' hlive'
  case emptied =>
    intro s' obj' hobj' hended'
    rcases getElem?_set_cases hobj' with ⟨-, rfl⟩ | ⟨-, hobj'⟩
    · exact hclients
    · exact h.emptied s' obj' hobj' hended'
  case joinable =>
    intro s₁ s₂ obj₁ obj₂ h₁ h₂ hj₁ hj₂
    rcases getElem?_set_cases h₁ with ⟨-, rfl⟩ | ⟨-, h₁⟩
    · simp [GameSession.isJoinable] at hj₁
    · rcases getElem?_set_cases h₂ with ⟨-, rfl⟩ | ⟨-, h₂⟩
      · simp [GameSession.isJoinable] at hj₂
      · exact h.joinable s₁ s₂ obj₁ obj₂ h₁ h₂ hj₁ hj₂
  case member =>
    intro s' obj' c hobj' hc
    rcases getElem?_set_cases hobj' with ⟨-, rfl⟩ | ⟨-, hobj'⟩
    · simp [hclients] at hc
    · obtain ⟨conn, hconn, hs⟩ := h.member s' obj' c hobj' hc
      obtain ⟨conn', hconn', hs'⟩ := hq.forth c conn hconn
      exact ⟨conn', hconn', hs'.trans hs⟩
  case placed =>
    intro c conn' hconn'
    obtain ⟨conn, hconn, hs, hsock⟩ := hq.back c conn' hconn'
    obtain ⟨obj', hobj', hlive', hended'⟩ := h.placed c conn hconn
    rw [hs]
    by_cases hcs : conn.session = s
    · rw [hcs] at hobj' ⊢
      obtain rfl : obj = obj' := Option.some.inj (hobj.symm.trans hobj')
      refine ⟨obj.endSession, hself, by simp, fun _ => ?_⟩
      exact disconnectAll_socket hconn' (by
        simpa [GameSession.disconnectedByEnd, hlive] using hlive' hlive)
    · refine ⟨obj', ?_, hlive', fun he hc => hended' he (hsock hc)⟩
      rwa [List.getElem?_set_ne (Ne.symm hcs)]
  case ends =>
    intro s'
    rw [List.mem_append, List.mem_singleton, h.ends]
    constructor
    · rintro (⟨obj', hobj', hended'⟩ | rfl)
      · have hs : s ≠ s' := by
          rintro rfl
          obtain rfl : obj = obj' := Option.some.inj (hobj.symm.trans hobj')
          simp [hlive] at hended'
        exact ⟨obj', by rwa [List.getElem?_set_ne hs], hended'⟩
      · exact ⟨_, hself, by simp⟩
    · rintro ⟨obj', hobj', hended'⟩
      rcases getElem?_set_cases hobj' with ⟨rfl, -⟩ | ⟨-, hobj'⟩
      · exact .inr rfl
      · exact .inl ⟨obj', hobj', hended'⟩
  case ends_nodup =>
    rw [List.nodup_append]
    refine ⟨h.ends_nodup, by simp, ?_⟩
    intro s₁ hs₁ s₂ hs₂ heq
    obtain rfl : s₂ = s := by simpa using hs₂
    obtain ⟨obj', hobj', hended'⟩ := (h.ends s₁).mp hs₁
    rw [heq, hobj] at hobj'
    obtain rfl := Option.some.inj hobj'
    simp [hlive] at hended'

theorem Inv.endSession (h : Inv l) (s : Nat) : Inv (endSession l s) := by
  unfold Lobby.endSession
  split
  · exact h
  · rename_i obj hobj
    split
    · exact h
    · rename_i hlive
      exact h.endLive hobj (by simpa using hlive)

/-! ## A client joins -/

theorem findJoinable_some {s : Nat} (h : findJoinable l = some s) :
    ∃ obj, l.objects[s]? = some obj ∧ obj.isJoinable = true := by
  have hj := List.find?_some h
  simpa only [Option.any_eq_true] using hj

theorem findJoinable_none (h : findJoinable l = none) {id : String} {s : Nat}
    {obj : GameSession} (hmem : (id, s) ∈ l.sessions.entries)
    (hobj : l.objects[s]? = some obj) : obj.isJoinable = false := by
  have hall := List.find?_eq_none.mp h s (List.mem_map.mpr ⟨(id, s), hmem, rfl⟩)
  simpa [hobj] using hall

/-- The newest client is put into the session `s`, which was `obj` before, while
no other session was joinable. -/
theorem Inv.place (h : Inv l) {sessions : OrderedMap String Nat} {objects : List GameSession}
    (s : Nat) (obj : GameSession) (hlive : obj.ended = false)
    (hreq : obj.requiredClientCount = 2) (hlen : obj.clients.length < 2)
    (hself : objects[s]? = some (obj.addClient l.connections.length))
    (hother : ∀ s', s' ≠ s → objects[s']? = l.objects[s']?)
    (hbefore : ∀ obj', l.objects[s]? = some obj' → obj' = obj)
    (hclients : ∀ c ∈ obj.clients, ∃ conn, l.connections[c]? = some conn ∧ conn.session = s)
    (hentry : ∀ id s', (id, s') ∈ sessions.entries ↔
      ∃ obj', objects[s']? = some obj' ∧ obj'.ended = false ∧ obj'.id = id)
    (hsole : ∀ s' obj', s' ≠ s → l.objects[s']? = some obj' → obj'.isJoinable = false) :
    Inv { l with
      sessions := sessions
      objects := objects
      connections := l.connections ++ [{ client := {}, session := s }] } := by
  have hcases : ∀ s' obj', objects[s']? = some obj' →
      (s' = s ∧ obj' = obj.addClient l.connections.length) ∨
        (s' ≠ s ∧ l.objects[s']? = some obj') := by
    intro s' obj' hobj'
    by_cases hs : s' = s
    · subst hs
      exact .inl ⟨rfl, Option.some.inj (hobj'.symm.trans hself)⟩
    · exact .inr ⟨hs, hother s' hs ▸ hobj'⟩
  have hconn : ∀ (c : Nat) conn, l.connections[c]? = some conn →
      (l.connections ++ [{ client := {}, session := s }])[c]? = some conn := by
    intro c conn hc
    rw [List.getElem?_append_left (List.getElem?_eq_some_iff.mp hc).1, hc]
  constructor
  case entry => exact hentry
  case required =>
    intro s' obj' hobj'
    rcases hcases s' obj' hobj' with ⟨-, rfl⟩ | ⟨-, hobj'⟩
    · exact hreq
    · exact h.required s' obj' hobj'
  case size =>
    intro s' obj' hobj' hlive'
    rcases hcases s' obj' hobj' with ⟨-, rfl⟩ | ⟨-, hobj'⟩
    · simp only [GameSession.addClient, List.length_append, List.length_singleton]
      omega
    · exact h.size s' obj' hobj' hlive'
  case emptied =>
    intro s' obj' hobj' hended'
    rcases hcases s' obj' hobj' with ⟨-, rfl⟩ | ⟨-, hobj'⟩
    · simp [GameSession.addClient, hlive] at hended'
    · exact h.emptied s' obj' hobj' hended'
  case joinable =>
    have hs : ∀ s' obj', objects[s']? = some obj' → obj'.isJoinable = true → s' = s := by
      intro s' obj' hobj' hj'
      rcases hcases s' obj' hobj' with ⟨hs, -⟩ | ⟨hs, hobj'⟩
      · exact hs
      · simp [hsole s' obj' hs hobj'] at hj'
    intro s₁ s₂ obj₁ obj₂ h₁ h₂ hj₁ hj₂
    rw [hs s₁ obj₁ h₁ hj₁, hs s₂ obj₂ h₂ hj₂]
  case member =>
    intro s' obj' c hobj' hc
    rcases hcases s' obj' hobj' with ⟨rfl, rfl⟩ | ⟨-, hobj'⟩
    · rcases List.mem_append.mp hc with hc | hc
      · obtain ⟨conn, hc', hs⟩ := hclients c hc
        exact ⟨conn, hconn c conn hc', hs⟩
      · obtain rfl : c = l.connections.length := by simpa using hc
        exact ⟨{ client := {}, session := s' }, by simp, rfl⟩
    · obtain ⟨conn, hc', hs⟩ := h.member s' obj' c hobj' hc
      exact ⟨conn, hconn c conn hc', hs⟩
  case placed =>
    intro c conn hc
    rcases Nat.lt_or_ge c l.connections.length with hlt | hge
    · rw [List.getElem?_append_left hlt] at hc
      obtain ⟨obj', hobj', hlive', hended'⟩ := h.placed c conn hc
      by_cases hs : conn.session = s
      · rw [hs] at hobj' ⊢
        obtain rfl := hbefore obj' hobj'
        refine ⟨_, hself, fun _ => List.mem_append_left _ (hlive' hlive), ?_⟩
        simp [GameSession.addClient, hlive]
      · exact ⟨obj', by rwa [hother _ hs], hlive', hended'⟩
    · have hlt := (List.getElem?_eq_some_iff.mp hc).1
      simp only [List.length_append, List.length_singleton] at hlt
      obtain rfl : c = l.connections.length := by omega
      obtain rfl : _ = conn := by simpa using hc
      exact ⟨_, hself, fun _ => by simp [GameSession.addClient],
        by simp [GameSession.addClient, hlive]⟩
  case ends =>
    intro s'
    rw [h.ends]
    constructor
    · rintro ⟨obj', hobj', hended'⟩
      have hs : s' ≠ s := by
        rintro rfl
        rw [hbefore obj' hobj', hlive] at hended'
        cases hended'
      exact ⟨obj', by rwa [hother s' hs], hended'⟩
    · rintro ⟨obj', hobj', hended'⟩
      rcases hcases s' obj' hobj' with ⟨-, rfl⟩ | ⟨-, hobj'⟩
      · simp [GameSession.addClient, hlive] at hended'
      · exact ⟨obj', hobj', hended'⟩
  case ends_nodup => exact h.ends_nodup

theorem Inv.joinSession (h : Inv l) {s : Nat} (hs : findJoinable l = some s) :
    Inv (joinSession l s) := by
  obtain ⟨obj, hobj, hj⟩ := findJoinable_some hs
  have hreq := h.required s obj hobj
  obtain ⟨hlive, hlen⟩ := (GameSession.isJoinable_iff obj).mp hj
  rw [hreq] at hlen
  have hmod : ∀ s', (l.objects.modify s (·.addClient l.connections.length))[s']? =
      if s = s' then some (obj.addClient l.connections.length) else l.objects[s']? := by
    intro s'
    rw [List.getElem?_modify]
    split
    · rename_i hss
      rw [← hss, hobj]
      rfl
    · simp
  refine h.place s obj hlive hreq hlen (by rw [hmod, if_pos rfl])
    (fun s' hne => by rw [hmod, if_neg (Ne.symm hne)])
    (fun obj' hobj' => Option.some.inj (hobj'.symm.trans hobj))
    (fun c hc => h.member s obj c hobj hc) ?_ ?_
  · intro id s'
    rw [h.entry, hmod]
    split
    · rename_i hss
      subst hss
      simp [hobj, GameSession.addClient]
    · rfl
  · intro s' obj' hne hobj'
    cases hj' : obj'.isJoinable with
    | false => rfl
    | true => exact absurd (h.joinable s' s obj' obj hobj' hobj hj' hj) hne

theorem Inv.openSession (h : Inv l) {id : String} (hnone : findJoinable l = none)
    (hid : id ∉ l.sessions.keys) :
    Inv (Lobby.joinSession (createSession l id) l.objects.length) := by
  let obj : GameSession := { id := id }
  have hmod : ∀ s', ((l.objects ++ [obj]).modify l.objects.length
        (·.addClient l.connections.length))[s']? =
      if s' = l.objects.length then some (obj.addClient l.connections.length)
      else l.objects[s']? := by
    intro s'
    rw [List.getElem?_modify]
    rcases Nat.lt_trichotomy s' l.objects.length with hlt | rfl | hgt
    · have hne : l.objects.length ≠ s' := by omega
      simp [hne, hne.symm, List.getElem?_append_left hlt]
    · simp
    · have hne : s' ≠ l.objects.length := by omega
      have hout : (l.objects ++ [obj])[s']? = none :=
        List.getElem?_eq_none (by rw [List.length_append]; exact hgt)
      have hold : l.objects[s']? = none := List.getElem?_eq_none (Nat.le_of_lt hgt)
      rw [hout, hold, if_neg hne]
      rfl
  have hnew : l.objects[l.objects.length]? = none := List.getElem?_eq_none (Nat.le_refl _)
  refine h.place _ obj rfl rfl (by simp [obj]) (by rw [createSession, hmod, if_pos rfl])
    (fun s' hne => by rw [createSession, hmod, if_neg hne]) (fun obj' hobj' => ?_)
    (by simp [obj]) ?_ ?_
  · rw [hnew] at hobj'
    cases hobj'
  · intro id' s'
    rw [createSession, OrderedMap.entries_set_of_not_mem _ hid, hmod, List.mem_append, h.entry]
    split
    · rename_i hs
      subst hs
      constructor
      · rintro (⟨obj', hobj', -⟩ | hmem)
        · simp at hobj'
        · obtain rfl : id' = id := by simpa using hmem
          exact ⟨_, rfl, rfl, rfl⟩
      · rintro ⟨obj', hobj', -, rfl⟩
        obtain rfl := Option.some.inj hobj'
        simp [obj, GameSession.addClient]
    · rename_i hs
      simp [hs]
  · intro s' obj' _ hobj'
    cases hended : obj'.ended with
    | false =>
        exact findJoinable_none hnone ((h.entry _ _).mpr ⟨obj', hobj', hended, rfl⟩) hobj'
    | true => simp [GameSession.isJoinable, hended]

theorem freshId_some {draws : List String} {id : String} (h : freshId l draws = some id) :
    id ∉ l.sessions.keys := by
  simpa [OrderedMap.has] using List.find?_some h

/-! ## Every run -/

theorem Inv.step (h : Inv l) (hs : step l a = some l') : Inv l' := by
  cases a with
  | connection draws =>
      simp only [Lobby.step] at hs
      split at hs
      · rename_i s hj
        obtain rfl := Option.some.inj hs
        exact h.joinSession hj
      · rename_i hnone
        obtain ⟨id, hid, rfl⟩ := Option.map_eq_some_iff.mp hs
        exact h.openSession hnone (freshId_some hid)
  | close c =>
      simp only [Lobby.step] at hs
      split at hs
      · cases hs
      · rename_i conn hconn
        split at hs
        · cases hs
        · obtain rfl := Option.some.inj hs
          exact (h.quench (quenched_closed hconn)).endSession _
  | timeout c =>
      obtain rfl := Option.some.inj hs
      exact h.quench (quenched_modify _ _)
  | handlerError s =>
      obtain rfl := Option.some.inj hs
      exact h.endSession s

theorem inv_of_reachable (h : Reachable (Fires step) init l) : Inv l :=
  h.invariant inv_init fun _ _ _ hinv hstep => hinv.step hstep

structure Consistent (l : State) : Prop where
  ids : l.sessions.keys.Nodup
  /-- The map holds exactly the sessions that were created and have not ended. -/
  live : ∀ s, s ∈ l.sessions.entries.map Prod.snd ↔
    ∃ obj, l.objects[s]? = some obj ∧ obj.ended = false
  keyed : ∀ id s, (id, s) ∈ l.sessions.entries → (l.objects[s]?).map GameSession.id = some id
  size : ∀ id s, (id, s) ∈ l.sessions.entries →
    ∃ obj, l.objects[s]? = some obj ∧ (obj.clients.length = 1 ∨ obj.clients.length = 2)
  joinable : ∀ (s s' : Nat) obj obj', l.objects[s]? = some obj → l.objects[s']? = some obj' →
    obj.isJoinable = true → obj'.isJoinable = true → s = s'
  exclusive : ∀ (s s' : Nat) obj obj' c, l.objects[s]? = some obj → l.objects[s']? = some obj' →
    c ∈ obj.clients → c ∈ obj'.clients → s = s'
  /-- A client whose close event has not been processed is in exactly one live
  session, or its session has ended and disconnected it. -/
  placed : ∀ (c : Nat) conn, l.connections[c]? = some conn → conn.client.socket ≠ .closed →
    (∃! s, s ∈ l.sessions.entries.map Prod.snd ∧
      ∃ obj, l.objects[s]? = some obj ∧ c ∈ obj.clients) ∨
    ∃ obj, l.objects[conn.session]? = some obj ∧ obj.ended = true ∧
      conn.client.socket = .destroyed
  /-- Each session that has ended has emitted "end" once, and no other has. -/
  ends : l.ends.Nodup ∧ ∀ s, s ∈ l.ends ↔ ∃ obj, l.objects[s]? = some obj ∧ obj.ended = true

theorem Inv.live (h : Inv l) (s : Nat) : s ∈ l.sessions.entries.map Prod.snd ↔
    ∃ obj, l.objects[s]? = some obj ∧ obj.ended = false := by
  constructor
  · intro hs
    obtain ⟨⟨id, s⟩, hmem, rfl⟩ := List.mem_map.mp hs
    obtain ⟨obj, hobj, hlive, -⟩ := (h.entry id s).mp hmem
    exact ⟨obj, hobj, hlive⟩
  · rintro ⟨obj, hobj, hlive⟩
    exact List.mem_map.mpr ⟨(obj.id, s), (h.entry _ _).mpr ⟨obj, hobj, hlive, rfl⟩, rfl⟩

theorem Inv.exclusive (h : Inv l) {s s' : Nat} {obj obj' : GameSession} {c : ClientId}
    (hobj : l.objects[s]? = some obj) (hobj' : l.objects[s']? = some obj')
    (hc : c ∈ obj.clients) (hc' : c ∈ obj'.clients) : s = s' := by
  obtain ⟨conn, hconn, hs⟩ := h.member s obj c hobj hc
  obtain ⟨conn', hconn', hs'⟩ := h.member s' obj' c hobj' hc'
  obtain rfl := Option.some.inj (hconn.symm.trans hconn')
  exact hs.symm.trans hs'

/-- The lobby is consistent after every event, whatever the events and their order. -/
theorem lobby_consistent (h : Reachable (Fires step) init l) : Consistent l := by
  have hinv := inv_of_reachable h
  exact {
    ids := l.sessions.nodup_keys
    live := hinv.live
    keyed := by
      intro id s hmem
      obtain ⟨obj, hobj, -, hid⟩ := (hinv.entry id s).mp hmem
      rw [hobj, Option.map_some, hid]
    size := by
      intro id s hmem
      obtain ⟨obj, hobj, hlive, -⟩ := (hinv.entry id s).mp hmem
      have hsize := hinv.size s obj hobj hlive
      exact ⟨obj, hobj, by omega⟩
    joinable := hinv.joinable
    exclusive := fun _ _ _ _ _ hobj hobj' hc hc' => hinv.exclusive hobj hobj' hc hc'
    placed := by
      intro c conn hconn hopen
      obtain ⟨obj, hobj, hlive, hended⟩ := hinv.placed c conn hconn
      cases he : obj.ended with
      | false =>
          refine .inl ⟨conn.session, ⟨(hinv.live _).mpr ⟨obj, hobj, he⟩, obj, hobj, hlive he⟩, ?_⟩
          rintro s' ⟨-, obj', hobj', hc'⟩
          exact hinv.exclusive hobj' hobj hc' (hlive he)
      | true =>
          refine .inr ⟨obj, hobj, he, ?_⟩
          have hne := hended he
          cases hsock : conn.client.socket <;> simp_all
    ends := ⟨hinv.ends_nodup, hinv.ends⟩ }

/-- Two clients play and a third waits; then the first times out, both players'
sockets close, and a new session takes over the id of theirs. -/
theorem lobby_consistent_id_reused :
    ∃ l, l.sessions.entries = [("BBBB", 1), ("AAAA", 2)] ∧ l.ends = [0] ∧ Consistent l := by
  have hrun : (exec step init
      [.connection ["AAAA"], .connection [], .connection ["AAAA", "BBBB"], .timeout 0, .close 0,
        .close 1, .connection [], .connection ["BBBB", "AAAA"], .handlerError 0]).any
      (fun l => l.sessions.entries = [("BBBB", 1), ("AAAA", 2)] ∧ l.ends = [0]) = true := by
    decide
  obtain ⟨l, hl, hp⟩ := exists_reachable_of_exec hrun
  simp only [decide_eq_true_eq] at hp
  exact ⟨l, hp.1, hp.2, lobby_consistent hl⟩

end GbPlay.Server.LobbyInvariant
