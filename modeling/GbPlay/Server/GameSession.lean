import Mathlib.Tactic.Common

/-!
# Game sessions

The part of `GameSession` that every game shares: which clients have joined,
whether more may, and how a session ends.  The state handlers and `run` are in
the model of the game's session.
-/

namespace GbPlay.Server

/-- A client, by the number of its connection. -/
abbrev ClientId := Nat

structure GameSession where
  id : String
  requiredClientCount : Nat := 2
  clients : List ClientId := []
  ended : Bool := false
  deriving DecidableEq, Repr

namespace GameSession

def requiredClientsHaveJoined (s : GameSession) : Bool :=
  s.requiredClientCount ≤ s.clients.length

def isJoinable (s : GameSession) : Bool :=
  !s.ended && !s.requiredClientsHaveJoined

def addClient (s : GameSession) (c : ClientId) : GameSession :=
  { s with clients := s.clients ++ [c] }

/-- The effect of `end` on the session itself. -/
def endSession (s : GameSession) : GameSession :=
  if s.ended then s else { s with ended := true, clients := [] }

/-- The clients `end` disconnects. -/
def disconnectedByEnd (s : GameSession) : List ClientId :=
  if s.ended then [] else s.clients

/-- The two clients whose bytes `forwardClientBytes` exchanges; it throws when
there are none. -/
def forwardedClients (s : GameSession) : Option (ClientId × ClientId) :=
  if s.clients.length = s.requiredClientCount then
    match s.clients with
    | c₁ :: c₂ :: _ => some (c₁, c₂)
    | _ => none
  else none

@[simp] theorem endSession_ended (s : GameSession) : s.endSession.ended = true := by
  unfold endSession
  split <;> simp_all

@[simp] theorem endSession_requiredClientCount (s : GameSession) :
    s.endSession.requiredClientCount = s.requiredClientCount := by
  unfold endSession
  split <;> rfl

theorem endSession_of_live {s : GameSession} (h : s.ended = false) :
    s.endSession = { s with ended := true, clients := [] } := by
  simp [endSession, h]

theorem clients_eq_of_forwardedClients {s : GameSession} {c₁ c₂ : ClientId}
    (hrequired : s.requiredClientCount = 2) (h : s.forwardedClients = some (c₁, c₂)) :
    s.clients = [c₁, c₂] := by
  unfold forwardedClients at h
  split at h
  case isFalse => simp at h
  case isTrue hlength =>
      rw [hrequired] at hlength
      match hclients : s.clients with
      | [] | [_] | _ :: _ :: _ :: _ => simp [hclients] at hlength
      | [x, y] => simpa [hclients] using h

theorem isJoinable_iff (s : GameSession) :
    s.isJoinable = true ↔ s.ended = false ∧ s.clients.length < s.requiredClientCount := by
  simp [isJoinable, requiredClientsHaveJoined]

end GameSession

end GbPlay.Server
