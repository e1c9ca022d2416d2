import GbPlay.Library.Dialogue
import GbPlay.Server.Client

/-!
# Client scripts

What a `forAllClients` callback does with its client is a list of
`GameBoyClient` operations, performed one `exchangeByte` at a time: a dialogue
whose outputs are the bytes sent and whose replies are the bytes received.
-/

namespace GbPlay.Server.Script

open GbPlay.Library GbPlay.Server.Client

inductive ClientOp
  | exchangeByte (tx : Byte)
  | waitForByte (pollValue waitValue : Byte)
  | sendBuffer (buf : List Byte)
  deriving DecidableEq, Repr

/-- The byte the callback exchanges next; `none` when it has returned. -/
def nextByte : List ClientOp → Option Byte
  | [] => none
  | .exchangeByte tx :: _ => some tx
  | .waitForByte pollValue _ :: _ => some pollValue
  | .sendBuffer (b :: _) :: _ => some b
  | .sendBuffer [] :: ops => nextByte ops

/-- What is left of the callback once that byte has been answered by `rx`. -/
def afterReply : List ClientOp → Byte → List ClientOp
  | [], _ => []
  | .exchangeByte _ :: ops, _ => ops
  | .waitForByte pollValue waitValue :: ops, rx =>
      if rx ≠ waitValue then .waitForByte pollValue waitValue :: ops else ops
  | .sendBuffer [] :: ops, rx => afterReply ops rx
  | .sendBuffer [_] :: ops, _ => ops
  | .sendBuffer (_ :: b :: bs) :: ops, _ => .sendBuffer (b :: bs) :: ops

def script : Dialogue (List ClientOp) Byte Byte where
  next := nextByte
  reply := afterReply

@[simp] theorem script_next (ops : List ClientOp) : script.next ops = nextByte ops := rfl

@[simp] theorem script_reply (ops : List ClientOp) (rx : Byte) :
    script.reply ops rx = afterReply ops rx := rfl

end GbPlay.Server.Script
