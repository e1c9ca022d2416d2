import GbPlay.Library.OrderedMap
import GbPlay.Server.Tetris.Effects
import GbPlay.Server.Tetris.Renaming

/-!
# All the sessions of the server

`server.ts` with the sessions it creates: each one is a Tetris session with all it does,
and any number of them take their steps in any order.  A session that ends leaves the
`sessions` map in the same step.  The program keeps neither `games`, which are all
sessions ever created, nor `connections`, the session each connection was given to.
-/

namespace GbPlay.Server.Sessions

open GbPlay.Library GbPlay.Library.Runs GbPlay.Server.Client
open GbPlay.Server.Tetris.Effects GbPlay.Server.Tetris.Model GbPlay.Server.Tetris.Renaming
open GbPlay.Server.Tetris.Sync (draws₀)

structure State where
  sessions : OrderedMap String Nat
  games : List World
  connections : List Nat

def init : State := { sessions := .empty, games := [], connections := [] }

inductive Label
  /-- A connection event, with the results of its `generateSessionId` calls. -/
  | connection (draws : List String)
  /-- A step of a session, other than that a client joins. -/
  | game (i : Nat) (l : Tetris.Model.Label)

/-- `[...sessions.values()].find(s => s.isJoinable())` -/
def findJoinable (s : State) : Option Nat :=
  (s.sessions.entries.map Prod.snd).find? fun i => (s.games[i]?).any (·.session.isJoinable)

/-- `do { id = generateSessionId() } while (sessions.has(id))` -/
def freshId (s : State) (draws : List String) : Option String :=
  draws.find? fun id => !s.sessions.has id

/-- `new TetrisGameSession(id)` with its listener, in the map and running. -/
def createSession (s : State) (id : String) : State :=
  { s with
    sessions := s.sessions.set id s.games.length
    games := s.games ++ [World.renamed id Tetris.Model.init] }

/-- `session.addClient(client)` for the new connection. -/
def addClient (s : State) (i : Nat) : Option State :=
  match s.games[i]? with
  | none => none
  | some w =>
      (Tetris.Model.step w (.join s.connections.length)).map fun w' =>
        { s with games := s.games.set i w', connections := s.connections ++ [i] }

/-- The listener on "end" deletes the map's entry for the id of the session. -/
def afterStep (s : State) (i : Nat) (w w' : World) : State :=
  { s with
    sessions :=
      if w.session.ended = w'.session.ended then s.sessions else s.sessions.erase w.session.id
    games := s.games.set i w' }

def isJoin : Tetris.Model.Label → Bool
  | .join _ => true
  | _ => false

def step (s : State) : Label → Option State
  | .connection draws =>
      match findJoinable s with
      | some i => addClient s i
      | none => (freshId s draws).bind fun id => addClient (createSession s id) s.games.length
  | .game i l =>
      match s.games[i]? with
      | none => none
      | some w =>
          if isJoin l then none
          else (Tetris.Model.step w l).map (afterStep s i w)

/-! ## One session among the others -/

/-- The steps of session `i`. -/
def own (i : Nat) : Label → Option Tetris.Model.Label
  | .game j l => if j = i then some l else none
  | .connection _ => none

/-- Who has joined session `i`, in order. -/
def joinedBy (connections : List Nat) (i : Nat) : List ClientId :=
  (List.range connections.length).filter fun c => connections[c]? = some i

/-- A session is where the steps of its own lead, and clients that join. -/
structure Isolated (s : State) (ls : List Label) (i : Nat) (w : World) : Prop where
  run : ∃ id ks w₀, Run (Fires Tetris.Model.step) Tetris.Model.init ks w₀ ∧
    w = World.renamed id w₀ ∧ ks.filter (!isJoin ·) = ls.filterMap (own i)
  joined : w.joined = joinedBy s.connections i

variable {s s' : State} {w w' : World} {ls : List Label} {i j : Nat} {c : ClientId}

theorem joinedBy_concat_self (connections : List Nat) (i : Nat) :
    joinedBy (connections ++ [i]) i = joinedBy connections i ++ [connections.length] := by
  have hrange : List.range (connections ++ [i]).length =
      List.range connections.length ++ [connections.length] := by
    rw [List.length_append, List.length_singleton, List.range_succ]
  have hold : ∀ c ∈ List.range connections.length,
      decide ((connections ++ [i])[c]? = some i) = decide (connections[c]? = some i) := by
    intro c hc
    rw [List.getElem?_append_left (List.mem_range.mp hc)]
  rw [joinedBy, hrange, List.filter_append, List.filter_congr hold]
  simp [joinedBy]

theorem joinedBy_concat_of_ne (connections : List Nat) (h : j ≠ i) :
    joinedBy (connections ++ [j]) i = joinedBy connections i := by
  have hrange : List.range (connections ++ [j]).length =
      List.range connections.length ++ [connections.length] := by
    rw [List.length_append, List.length_singleton, List.range_succ]
  have hold : ∀ c ∈ List.range connections.length,
      decide ((connections ++ [j])[c]? = some i) = decide (connections[c]? = some i) := by
    intro c hc
    rw [List.getElem?_append_left (List.mem_range.mp hc)]
  rw [joinedBy, hrange, List.filter_append, List.filter_congr hold]
  simp [joinedBy, h]

theorem joinedBy_of_forall_lt {connections : List Nat} {n : Nat} (h : ∀ i ∈ connections, i < n) :
    joinedBy connections n = [] := by
  rw [joinedBy, List.filter_eq_nil_iff]
  intro c _ hc
  have hmem := List.mem_of_getElem? (of_decide_eq_true hc)
  exact absurd (h n hmem) (Nat.lt_irrefl n)

theorem getElem?_set_iff {α : Type*} {xs : List α} {x y z : α} (h : xs[i]? = some x) :
    (xs.set i y)[j]? = some z ↔ (j = i ∧ z = y) ∨ (j ≠ i ∧ xs[j]? = some z) := by
  have hlt := (List.getElem?_eq_some_iff.mp h).1
  rw [List.getElem?_set]
  by_cases hij : i = j
  · subst hij
    simp [hlt, eq_comm]
  · simp [hij, Ne.symm hij]

theorem step_join (h : Tetris.Model.step w (.join c) = some w') :
    w.session.isJoinable = true ∧ c ∉ w.joined ∧ w' = { w with
      session := { w.session with toGameSession := w.session.addClient c }
      joined := w.joined ++ [c] } := by
  simp only [Tetris.Model.step, Option.ite_none_right_eq_some, Option.some.injEq] at h
  exact ⟨h.1.1, h.1.2, h.2.symm⟩

theorem addClient_eq_some (h : addClient s i = some s') :
    ∃ w w', s.games[i]? = some w ∧
      Tetris.Model.step w (.join s.connections.length) = some w' ∧
      s' = { s with games := s.games.set i w', connections := s.connections ++ [i] } := by
  unfold addClient at h
  split at h
  · cases h
  · rename_i w hw
    obtain ⟨w', hw', rfl⟩ := Option.map_eq_some_iff.mp h
    exact ⟨w, w', hw, hw', rfl⟩

theorem step_game (h : step s (.game i l) = some s') : ∃ w w', s.games[i]? = some w ∧
    isJoin l = false ∧ Tetris.Model.step w l = some w' ∧ s' = afterStep s i w w' := by
  simp only [step] at h
  split at h
  · cases h
  · rename_i w hw
    rw [Option.ite_none_left_eq_some] at h
    obtain ⟨hjoin, h⟩ := h
    obtain ⟨w', hw', rfl⟩ := Option.map_eq_some_iff.mp h
    exact ⟨w, w', hw, by simpa using hjoin, hw', rfl⟩

/-! ## Every session runs as if it were alone -/

structure Inv (ls : List Label) (s : State) : Prop where
  isolated : ∀ i w, s.games[i]? = some w → Isolated s ls i w
  known : ∀ i ∈ s.connections, i < s.games.length
  owned : ∀ i l, Label.game i l ∈ ls → i < s.games.length

theorem inv_init : Inv [] init := by
  constructor <;> simp [init]

theorem filterMap_own_of_not_mem {n : Nat} (h : ∀ i l, Label.game i l ∈ ls → i < n) :
    ls.filterMap (own n) = [] := by
  rw [List.filterMap_eq_nil_iff]
  intro l hl
  cases l with
  | connection draws => rfl
  | game i l => exact if_neg (Nat.ne_of_lt (h i l hl))

theorem Inv.createSession (h : Inv ls s) (id : String) : Inv ls (createSession s id) := by
  constructor
  · intro i w hw
    rw [Sessions.createSession, List.getElem?_append] at hw
    split at hw
    · exact ⟨(h.isolated i w hw).run, (h.isolated i w hw).joined⟩
    · rename_i hlt
      have hi : i = s.games.length := by
        have := (List.getElem?_eq_some_iff.mp hw).1
        simp only [List.length_singleton] at this
        omega
      subst hi
      simp only [Nat.sub_self, List.getElem?_cons_zero, Option.some.injEq] at hw
      subst hw
      refine ⟨⟨id, [], _, .nil, rfl, ?_⟩, (joinedBy_of_forall_lt h.known).symm⟩
      rw [filterMap_own_of_not_mem h.owned]
      rfl
  · intro i hi
    have := h.known i hi
    simp only [Sessions.createSession, List.length_append]
    omega
  · intro i l hl
    have := h.owned i l hl
    simp only [Sessions.createSession, List.length_append]
    omega

theorem Inv.addClient (h : Inv ls s) (draws : List String) (hadd : addClient s i = some s') :
    Inv (ls ++ [.connection draws]) s' := by
  obtain ⟨w, w', hw, hstep, rfl⟩ := addClient_eq_some hadd
  obtain ⟨_, _, hw'⟩ := step_join hstep
  have hlabels (j : Nat) :
      (ls ++ [Label.connection draws]).filterMap (own j) = ls.filterMap (own j) := by
    rw [List.filterMap_append]
    exact List.append_nil _
  constructor
  · intro j u hu
    rcases (getElem?_set_iff hw).mp hu with ⟨rfl, rfl⟩ | ⟨hne, hu⟩
    · obtain ⟨⟨id, ks, w₀, hrun, hrenamed, hks⟩, hjoined⟩ := h.isolated j w hw
      constructor
      · rw [hrenamed] at hstep
        obtain ⟨w₁, hrun', hw₁⟩ := run_renamed (.single hstep)
        refine ⟨id, ks ++ [.join s.connections.length], w₁, hrun.append hrun', hw₁, ?_⟩
        rw [hlabels, List.filter_append, hks]
        exact List.append_nil _
      · rw [joinedBy_concat_self, ← hjoined, hw']
    · obtain ⟨hrun, hjoined⟩ := h.isolated j u hu
      refine ⟨?_, ?_⟩
      · rw [hlabels]
        exact hrun
      · rw [joinedBy_concat_of_ne _ (Ne.symm hne), hjoined]
  · intro j hj
    rw [List.length_set]
    rcases List.mem_append.mp hj with hj | hj
    · exact h.known j hj
    · rw [List.mem_singleton.mp hj]
      exact (List.getElem?_eq_some_iff.mp hw).1
  · intro j l hl
    rw [List.length_set]
    rcases List.mem_append.mp hl with hl | hl
    · exact h.owned j l hl
    · simp at hl

theorem not_join_of_isJoin {l : Tetris.Model.Label} (h : isJoin l = false) (c : ClientId) :
    l ≠ .join c := by
  rintro rfl
  cases h

/-- The session model behind session `i`. -/
theorem Isolated.reachable (h : Isolated s ls i w) :
    ∃ id w₀, Reachable (Fires Tetris.Model.step) Tetris.Model.init w₀ ∧
      w = World.renamed id w₀ := by
  obtain ⟨id, ks, w₀, hrun, hw, _⟩ := h.run
  exact ⟨id, w₀, ⟨ks, hrun⟩, hw⟩

theorem Isolated.effect (h : Isolated s ls i w) {l : Tetris.Model.Label}
    (hstep : Tetris.Model.step w l = some w') (hjoin : isJoin l = false) : Effect w w' := by
  obtain ⟨id, w₀, hreachable, rfl⟩ := h.reachable
  exact effect_of_step hstep (not_join_of_isJoin hjoin)
    fun c hc => served_reachable hreachable c hc

theorem Inv.game (h : Inv ls s) {l : Tetris.Model.Label}
    (hstep : step s (.game i l) = some s') : Inv (ls ++ [.game i l]) s' := by
  obtain ⟨w, w', hw, hjoin, hfire, rfl⟩ := step_game hstep
  have hlabels (j : Nat) : (ls ++ [Label.game i l]).filterMap (own j) =
      ls.filterMap (own j) ++ if i = j then [l] else [] := by
    rw [List.filterMap_append]
    by_cases hij : i = j
    · simp [own, hij]
    · simp [own, hij]
  constructor
  · intro j u hu
    rcases (getElem?_set_iff hw).mp hu with ⟨rfl, rfl⟩ | ⟨hne, hu⟩
    · have heffect := (h.isolated j w hw).effect hfire hjoin
      obtain ⟨⟨id, ks, w₀, hrun, hrenamed, hks⟩, hjoined⟩ := h.isolated j w hw
      constructor
      · rw [hrenamed] at hfire
        obtain ⟨w₁, hrun', hw₁⟩ := run_renamed (.single hfire)
        refine ⟨id, ks ++ [l], w₁, hrun.append hrun', hw₁, ?_⟩
        rw [hlabels, List.filter_append, hks, if_pos rfl]
        simp [hjoin]
      · rw [heffect.joined, hjoined]
        rfl
    · obtain ⟨hrun, hjoined⟩ := h.isolated j u hu
      refine ⟨?_, hjoined⟩
      rw [hlabels, if_neg (Ne.symm hne), List.append_nil]
      exact hrun
  · intro j hj
    simp only [afterStep, List.length_set]
    exact h.known j hj
  · intro j l' hl
    simp only [afterStep, List.length_set]
    rcases List.mem_append.mp hl with hl | hl
    · exact h.owned j l' hl
    · simp only [List.mem_singleton, Label.game.injEq] at hl
      rw [hl.1]
      exact (List.getElem?_eq_some_iff.mp hw).1

theorem inv_run (h : Run (Fires step) init ls s) : Inv ls s := by
  induction h with
  | nil => exact inv_init
  | @snoc ls l t u _ hstep ih =>
      cases l with
      | connection draws =>
          simp only [Fires, step] at hstep
          split at hstep
          · exact ih.addClient draws hstep
          · obtain ⟨id, _, hadd⟩ := Option.bind_eq_some_iff.mp hstep
            exact (ih.createSession id).addClient draws hadd
      | game i l => exact ih.game hstep

/-- However many sessions the server runs and in whatever order they take their steps, each of
them is where its own steps lead from the start, with those of the others left out; and who has
joined it is who it was given, in order. -/
theorem sessions_isolated (h : Run (Fires step) init ls s) :
    (∀ i w, s.games[i]? = some w → Isolated s ls i w) ∧
      ∀ (i j : Nat) (w w' : World) (c : ClientId), s.games[i]? = some w → s.games[j]? = some w' →
        c ∈ w.joined → c ∈ w'.joined → i = j := by
  have hinv := inv_run h
  refine ⟨hinv.isolated, fun i j w w' c hw hw' hc hc' => ?_⟩
  rw [(hinv.isolated i w hw).joined, joinedBy, List.mem_filter, decide_eq_true_iff] at hc
  rw [(hinv.isolated j w' hw').joined, joinedBy, List.mem_filter, decide_eq_true_iff] at hc'
  exact Option.some.inj (hc.2.symm.trans hc'.2)

/-- The steps of two sessions that turn to their players, one after the other. -/
def twoSessions : List Label :=
  [.connection ["AAAA"], .connection [], .connection ["BBBB"], .connection [],
    .game 0 (.tick draws₀ 0 0), .game 1 (.tick draws₀ 0 0), .game 1 (.tick draws₀ 0 0),
    .game 0 (.tick draws₀ 0 0), .game 0 (.write 1 true), .game 1 (.write 0 true)]

/-- Either has written to a player of its own. -/
theorem sessions_isolated_both :
    ∃ (s : State) (w₀ w₁ : World), s.games[0]? = some w₀ ∧ s.games[1]? = some w₁ ∧
      w₀.log.getLast? = some (.sent 0 1 0x29) ∧ w₁.log.getLast? = some (.sent 0 2 0x29) ∧
      Isolated s twoSessions 0 w₀ ∧ Isolated s twoSessions 1 w₁ := by
  have hrun : (exec step init twoSessions).any
      (fun s => decide ((s.games.map fun w => w.log.getLast?) =
        [some (.sent 0 1 0x29), some (.sent 0 2 0x29)])) = true := by
    decide +kernel
  obtain ⟨s, hs, hp⟩ := exists_run_of_exec hrun
  rw [decide_eq_true_iff] at hp
  obtain ⟨hisolated, _⟩ := sessions_isolated hs
  match hgames : s.games with
  | [] | [_] | _ :: _ :: _ :: _ => simp [hgames] at hp
  | [w₀, w₁] =>
      simp only [hgames, List.map_cons, List.map_nil, List.cons.injEq, and_true] at hp
      exact ⟨s, w₀, w₁, by rw [hgames]; rfl, by rw [hgames]; rfl, hp.1, hp.2,
        hisolated 0 w₀ (by rw [hgames]; rfl), hisolated 1 w₁ (by rw [hgames]; rfl)⟩

end GbPlay.Server.Sessions
