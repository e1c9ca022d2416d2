import GbPlay.Library.Sessions
import GbPlay.Server.Client

/-!
# The server of the TCP serial bridge

`GBSerialTCPServer.run` for any game protocol: both Game Boys are put into slave
mode, the start sequence goes to both of them, and then every byte one of them
answers is sent to the other.  The server exchanges one byte at a time, so it is a
dialogue with its two clients.
-/

namespace GbPlay.Tools.Bridge

open GbPlay.Library GbPlay.Library.Sessions GbPlay.Server.Client

inductive Client
  | client1
  | client2
  deriving DecidableEq, Repr

/-- A module of `game_protocols`.  `none` of `dataHandler` is an exception, and
`some (link, none)` Python's `None`. -/
structure Protocol (I : Type*) where
  dataHandler : I → Option Byte → Option (I × Option Byte)
  lastByteReceived : I → Option Byte
  startSequence : List Byte
  records : ∀ {link data link' toSend}, dataHandler link data = some (link', toSend) →
    lastByteReceived link' = data

variable {I : Type*}

/-- Where `run` stands between two exchanges. -/
inductive Point (I : Type*)
  | entering1 (link : I) (response : Option Byte)
  | entering2 (link : I) (response : Option Byte) (gb1Byte : Option Byte)
  | starting (gb1Byte : Option Byte) (rest : List Byte)
  | startingSecond (gb1Byte : Byte) (b : Byte) (rest : List Byte)
  | toClient2 (gb1Byte : Byte)
  | toClient1 (gb2Byte : Byte)

/-- The next call of `_exchange_byte`, and how the server goes on from what it returns. -/
abbrev Exchange (I : Type*) := (Client × Byte) × (Byte → Point I)

/-- The loop over the start sequence, up to the first byte that is forwarded. -/
def start (gb1Byte : Option Byte) : List Byte → Option (Exchange I)
  | [] => gb1Byte.map fun b => ((.client2, b), .toClient1)
  | b :: rest => some ((.client1, b), fun rx => .startingSecond rx b rest)

/-- `_enter_slave_mode(client2)` and what follows it. -/
def enterSecond (P : Protocol I) (link : I) (response gb1Byte : Option Byte) :
    Option (Exchange I) :=
  match P.dataHandler link response with
  | none => none
  | some (link', some toSend) =>
      some ((.client2, toSend), fun rx => .entering2 link' (some rx) gb1Byte)
  | some (_, none) => start gb1Byte P.startSequence

/-- `link2` is the initializer of the second call of `get_link_initializer`. -/
def exchange (P : Protocol I) (link2 : I) : Point I → Option (Exchange I)
  | .entering1 link response =>
      match P.dataHandler link response with
      | none => none
      | some (link', some toSend) =>
          some ((.client1, toSend), fun rx => .entering1 link' (some rx))
      | some (link', none) => enterSecond P link2 none (P.lastByteReceived link')
  | .entering2 link response gb1Byte => enterSecond P link response gb1Byte
  | .starting gb1Byte rest => start gb1Byte rest
  | .startingSecond gb1Byte b rest =>
      some ((.client2, b), fun _ => .starting (some gb1Byte) rest)
  | .toClient2 gb1Byte => some ((.client2, gb1Byte), .toClient1)
  | .toClient1 gb2Byte => some ((.client1, gb2Byte), .toClient2)

def run (P : Protocol I) (link2 : I) : Dialogue (Point I) (Client × Byte) Byte where
  next q := (exchange P link2 q).map Prod.fst
  reply q rx :=
    match exchange P link2 q with
    | some (_, goOn) => goOn rx
    | none => q

/-! ## The initialization of one client -/

/-- `_enter_slave_mode`: the initializer and the response it is given next. -/
def initialization (P : Protocol I) : Dialogue (I × Option Byte) Byte Byte where
  next q :=
    match P.dataHandler q.1 q.2 with
    | some (_, toSend) => toSend
    | none => none
  reply q rx :=
    match P.dataHandler q.1 q.2 with
    | some (link, _) => (link, some rx)
    | none => q

/-- The initializer has returned `None`. -/
def Initialized (P : Protocol I) (q : I × Option Byte) : Prop :=
  ∃ link, P.dataHandler q.1 q.2 = some (link, none)

/-- `xs` is what has been exchanged with a client that has entered slave mode. -/
def Enters (P : Protocol I) (link : I) (xs : List (Byte × Byte)) : Prop :=
  ∃ q, (initialization P).Transcript (link, none) xs q ∧ Initialized P q

section Initialization

variable {P : Protocol I} {link link' : I} {response : Option Byte} {toSend rx : Byte}
  {xs : List (Byte × Byte)} {q : I × Option Byte}

theorem initialization_snoc
    (h : (initialization P).Transcript (link, none) xs (link', response))
    {link'' : I} (hsend : P.dataHandler link' response = some (link'', some toSend)) (rx : Byte) :
    (initialization P).Transcript (link, none) (xs ++ [(toSend, rx)]) (link'', some rx) := by
  have hnext : (initialization P).next (link', response) = some toSend := by
    simp [initialization, hsend]
  have hreply : (initialization P).reply (link', response) rx = (link'', some rx) := by
    simp [initialization, hsend]
  rw [← hreply]
  exact h.snoc hnext

/-- The response is the last byte the client has answered. -/
theorem response_of_transcript (h : (initialization P).Transcript (link, none) xs q) :
    q.2 = (xs.map Prod.snd).getLast? := by
  have hinv := h.invariant (I := fun ys q => q.2 = (ys.map Prod.snd).getLast?) (p := []) ?_ rfl
  · exact hinv
  · intro pre q a b _ hnext
    cases hdata : P.dataHandler q.1 q.2 <;> simp [initialization, hdata] at hnext ⊢

end Initialization

end GbPlay.Tools.Bridge
