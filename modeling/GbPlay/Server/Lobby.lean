import GbPlay.Library.Runs
import GbPlay.Library.OrderedMap
import GbPlay.Server.Client
import GbPlay.Server.GameSession

/-!
# The lobby

`server.ts`: the connection handler and the `sessions` map, with everything
that ends a session.  Node processes one event at a time, so each event is one
step.  A session object is numbered by its creation; its id is a string that a
later session may reuse once it has left the map.
-/

namespace GbPlay.Server.Lobby

open GbPlay.Library GbPlay.Server.Client

/-- One connection: its client, and the session whose `addClient` it was given to. -/
structure Connection where
  client : GameBoyClient
  session : Nat
  deriving DecidableEq, Repr

/-- `objects` are all sessions ever created and `ends` those that have emitted
"end", in order; the program keeps neither list. -/
structure State where
  sessions : OrderedMap String Nat
  objects : List GameSession
  connections : List Connection
  ends : List Nat

def init : State := { sessions := .empty, objects := [], connections := [], ends := [] }

inductive Label
  /-- A connection event, with the results of its `generateSessionId` calls. -/
  | connection (draws : List String)
  /-- The close event of a client's socket. -/
  | close (c : ClientId)
  /-- An exchange with the client timed out. -/
  | timeout (c : ClientId)
  /-- A state handler of the session failed. -/
  | handlerError (s : Nat)
  deriving DecidableEq, Repr

/-- `[...sessions.values()].find(s => s.isJoinable())` -/
def findJoinable (l : State) : Option Nat :=
  (l.sessions.entries.map Prod.snd).find? fun s => (l.objects[s]?).any (·.isJoinable)

/-- `do { id = generateSessionId() } while (sessions.has(id))`; `none` while
the loop is still drawing. -/
def freshId (l : State) (draws : List String) : Option String :=
  draws.find? fun id => !l.sessions.has id

def createSession (l : State) (id : String) : State :=
  { l with
    sessions := l.sessions.set id l.objects.length
    objects := l.objects ++ [{ id := id }] }

/-- The new connection's `addClient`. -/
def joinSession (l : State) (s : Nat) : State :=
  { l with
    objects := l.objects.modify s (·.addClient l.connections.length)
    connections := l.connections ++ [{ client := {}, session := s }] }

def Connection.disconnect (conn : Connection) : Connection :=
  { conn with client := conn.client.disconnect }

def disconnectAll (conns : List Connection) (cs : List ClientId) : List Connection :=
  conns.mapIdx fun c conn => if c ∈ cs then conn.disconnect else conn

/-- `end` of a session.  The listener on "end" deletes the map's entry for the
session's id, whatever session that entry holds. -/
def endSession (l : State) (s : Nat) : State :=
  match l.objects[s]? with
  | none => l
  | some obj =>
      if obj.ended then l
      else
        { sessions := l.sessions.erase obj.id
          objects := l.objects.set s obj.endSession
          connections := disconnectAll l.connections obj.disconnectedByEnd
          ends := l.ends ++ [s] }

def step (l : State) : Label → Option State
  | .connection draws =>
      match findJoinable l with
      | some s => some (joinSession l s)
      | none => (freshId l draws).map fun id => joinSession (createSession l id) l.objects.length
  | .close c =>
      match l.connections[c]? with
      | none => none
      | some conn =>
          if conn.client.socket = .closed then none
          else
            let closed := { conn with client := { conn.client with socket := .closed } }
            some (endSession { l with connections := l.connections.set c closed } conn.session)
  | .timeout c => some { l with connections := l.connections.modify c Connection.disconnect }
  | .handlerError s => some (endSession l s)

end GbPlay.Server.Lobby
