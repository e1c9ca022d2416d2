import GbPlay.Library.Runs
import GbPlay.Server.Tetris.Handlers

/-!
# A running Tetris session

`GameSession.run` and everything it awaits, as steps of one world.  An
`Activity` is an async function suspended in an `exchangeByte`: a
`forAllClients` callback, or one of the two halves of `forwardByte`.  Nothing
limits how many there are, and an activity whose promise nobody awaits any more
keeps running, as it does in Node.

One step is one callback together with the code up to the next await; in Node
several of these may follow each other without an event in between, so every
order of events is among the runs.  The send delay before a write and the time
between a promise and the code awaiting it are arbitrary.
-/

namespace GbPlay.Server.Tetris.Model

open GbPlay.Server.Client GbPlay.Server.Script GbPlay.Server.Tetris.Data
open GbPlay.Server.Tetris.Handlers

/-- What awaits the exchange of an activity. -/
inductive Continuation
  /-- A `forAllClients` callback, with its operations from this exchange on. -/
  | callback (ops : List ClientOp)
  /-- `await other.exchangeByte(…)` in the `forwardByte` of `self`. -/
  | forwardOther (self : ClientId)
  /-- `await this.exchangeByte(…)` in the `forwardByte` of the activity's client. -/
  | forwardSelf
  deriving DecidableEq, Repr

structure Activity where
  step : Nat
  client : ClientId
  call : Call
  cont : Continuation
  deriving DecidableEq, Repr

/-- The clients whose part of the step the activity has yet to complete. -/
def Activity.owners (a : Activity) : List ClientId :=
  match a.cont with
  | .callback _ => [a.client]
  | .forwardOther self => [a.client, self]
  | .forwardSelf => [a.client]

/-- The promise a handler awaits: the clients whose part of the step is not
complete, and whether one of them has failed. -/
structure Barrier where
  step : Nat
  pending : List ClientId
  rejected : Bool
  deriving DecidableEq, Repr

inductive Handler
  /-- `run` will be called. -/
  | scheduled
  | suspended (frame : Frame) (barrier : Barrier)
  /-- The handler has failed, and `run` is not called again. -/
  | stopped
  deriving DecidableEq, Repr

/-- `past` and `phase` are the history up to and since the last handler start. -/
structure World where
  session : TetrisGameSession
  joined : List ClientId
  client : ClientId → GameBoyClient
  running : List Activity
  handler : Handler
  steps : Nat
  past : List Event
  phase : List Event

def World.log (w : World) : List Event := w.past ++ w.phase

def World.working (w : World) : List ClientId := w.running.flatMap Activity.owners

/-- A session right after its constructor, with `run` about to be called. -/
def init : World :=
  { session := { id := "" }, joined := [], client := fun _ => {}, running := []
    handler := .scheduled, steps := 0, past := [], phase := [] }

/-! ## Ending -/

def disconnectAll (client : ClientId → GameBoyClient) (cs : List ClientId) :
    ClientId → GameBoyClient :=
  fun c => if c ∈ cs then (client c).disconnect else client c

/-- `end` of the session. -/
def World.endSession (w : World) : World :=
  if w.session.ended then w
  else
    { w with
      session := { w.session with toGameSession := w.session.toGameSession.endSession }
      client := disconnectAll w.client w.session.disconnectedByEnd
      phase := w.phase ++ [.ended] }

/-- The `catch` of `run`. -/
def World.catchError (w : World) : World := { w.endSession with handler := .stopped }

/-! ## Starting a step -/

def callbackActivity (step : Nat) (ops : List ClientOp) (b : Byte) (c : ClientId) : Activity :=
  { step := step, client := c, call := .delaying b, cont := .callback ops }

/-- `Promise.all(this.clients.map(…))` -/
def World.startCallbacks (w : World) (ops : List ClientOp) (frame : Frame) : World :=
  let cs := w.session.clients
  let begun : Event := .begun w.steps cs (.forAllClients ops)
  match nextByte ops with
  | some b =>
      { w with
        steps := w.steps + 1
        phase := w.phase ++ [begun]
        running := w.running ++ cs.map (callbackActivity w.steps ops b)
        handler := .suspended frame ⟨w.steps, cs, false⟩ }
  | none =>
      { w with
        steps := w.steps + 1
        phase := w.phase ++ begun :: cs.map (.completed w.steps)
        handler := .suspended frame ⟨w.steps, [], false⟩ }

/-- `this.clients[0].forwardByte(this.clients[1], onTransfer)` up to its first await. -/
def World.startForwarding (w : World) (c₁ c₂ : ClientId) (frame : Frame) : World :=
  { w with
    steps := w.steps + 1
    phase := w.phase ++ [.begun w.steps [c₁, c₂] .forwardClientBytes]
    running := w.running ++ [{
      step := w.steps, client := c₂, call := .delaying (w.client c₁).lastReceivedByte
      cont := .forwardOther c₁ }]
    handler := .suspended frame ⟨w.steps, [c₁, c₂], false⟩ }

def World.startTask (w : World) (task : Task) (frame : Frame) : World :=
  match task with
  | .forAllClients ops => w.startCallbacks ops frame
  | .forwardClientBytes =>
      match w.session.forwardedClients with
      | some (c₁, c₂) => w.startForwarding c₁ c₂ frame
      | none => w.catchError

/-- Carry out what a stretch of handler code did. -/
def World.perform (w : World) (r : Resumption) : World :=
  let w' := { w with session := r.session, phase := w.phase ++ r.events }
  match r.next with
  | .done => { w' with handler := .scheduled }
  | .sleep frame => { w' with handler := .suspended frame ⟨w.steps, [], false⟩ }
  | .step task frame => w'.startTask task frame

/-! ## Settling an exchange -/

/-- The part of client `c` in the step is complete. -/
def Handler.complete (h : Handler) (step : Nat) (c : ClientId) : Handler :=
  match h with
  | .suspended frame b =>
      if b.step = step then .suspended frame { b with pending := b.pending.erase c } else h
  | _ => h

def Handler.reject (h : Handler) (step : Nat) : Handler :=
  match h with
  | .suspended frame b =>
      if b.step = step then .suspended frame { b with rejected := true } else h
  | _ => h

/-- A call of the closure that the suspended handler passed as `onTransfer`. -/
def Handler.transfer (h : Handler) (step : Nat) (b₁ b₂ : Byte) (now : Int) : Handler :=
  match h with
  | .suspended frame b =>
      if b.step = step then .suspended (onTransfer b₁ b₂ now frame) b else h
  | _ => h

def World.complete (w : World) (step : Nat) (c : ClientId) : World :=
  { w with
    handler := w.handler.complete step c
    phase := w.phase ++ [.completed step c] }

/-- What follows when the exchange of an activity, no longer in `running`,
resolves with `rx`. -/
def World.onResolved (w : World) (a : Activity) (rx : Byte) (now : Int) : World :=
  let w : World := { w with
    client := Function.update w.client a.client { w.client a.client with lastReceivedByte := rx }
    phase := w.phase ++ [.answered a.step a.client rx] }
  match a.cont with
  | .callback ops =>
      match nextByte (afterReply ops rx) with
      | some b => { w with
          running := w.running ++ [callbackActivity a.step (afterReply ops rx) b a.client] }
      | none => w.complete a.step a.client
  | .forwardOther self =>
      let b₁ := (w.client self).lastReceivedByte
      let b₂ := (w.client a.client).lastReceivedByte
      World.complete { w with
        handler := w.handler.transfer a.step b₁ b₂ now
        phase := w.phase ++ [.transferred b₁ b₂]
        running := w.running ++ [{
          step := a.step, client := self, call := .delaying b₂, cont := .forwardSelf }] }
        a.step a.client
  | .forwardSelf => w.complete a.step a.client

def World.onRejected (w : World) (a : Activity) : World :=
  { w with
    handler := w.handler.reject a.step
    phase := w.phase ++ [.failed a.step a.client] }

/-! ## Steps -/

inductive Label
  | join (c : ClientId)
  /-- `run` calls `handleState`. -/
  | tick (draws : Draws) (now₀ now₁ : Int)
  /-- What the handler awaits has been fulfilled. -/
  | resume (now : Int)
  /-- What the handler awaits has been rejected. -/
  | reject
  | write (i : Nat) (accepted : Bool)
  | written (i : Nat)
  | writeError (i : Nat)
  | timeout (i : Nat)
  /-- A data event whose chunk starts with `rx`. -/
  | data (c : ClientId) (rx : Byte) (now : Int)
  | close (c : ClientId)

/-- The activities whose data listener resolves them on a data event of client `c`. -/
def Activity.hears (a : Activity) (client : ClientId → GameBoyClient) (c : ClientId) (rx : Byte) :
    Bool :=
  match a.call with
  | .exchanging _ e => a.client = c && (onData (client c) e rx).2.outcome = some (.resolved rx)
  | .delaying _ => false

/-- The activities whose close listener rejects them on the close event of client `c`. -/
def Activity.losesSocket (a : Activity) (c : ClientId) : Bool :=
  match a.call with
  | .exchanging _ e => a.client = c && e.onClose.outcome = some .rejected
  | .delaying _ => false

/-- `run` calls `handleState`, which runs to the first await of its handler. -/
def World.handleState (w : World) (draws : Draws) (now₀ now₁ : Int) : World :=
  { w with past := w.log, phase := [.handlerStarted w.session.state] }.perform
    (start w.session draws now₀ now₁)

def setSocket (client : ClientId → GameBoyClient) (c : ClientId) (s : SocketState) :
    ClientId → GameBoyClient :=
  Function.update client c { client c with socket := s }

def step (w : World) : Label → Option World
  | .join c =>
      if w.session.isJoinable ∧ c ∉ w.joined then
        some { w with
          session := { w.session with toGameSession := w.session.addClient c }
          joined := w.joined ++ [c] }
      else none
  | .tick draws now₀ now₁ =>
      match w.handler with
      | .scheduled => some (w.handleState draws now₀ now₁)
      | _ => none
  | .resume now =>
      match w.handler with
      | .suspended frame b =>
          if b.pending = [] ∧ b.rejected = false then
            some (w.perform (Handlers.resume w.session now frame))
          else none
      | _ => none
  | .reject =>
      match w.handler with
      | .suspended _ b => if b.rejected then some w.catchError else none
      | _ => none
  | .write i accepted =>
      match w.running[i]? with
      | some a =>
          match a.call with
          | .delaying b =>
              let running := w.running.set i { a with call := .exchanging accepted .start }
              if accepted then
                if (w.client a.client).socket = .connected then
                  some { w with
                    running := running
                    phase := w.phase ++ [.sent a.step a.client b] }
                else none
              else some { w with running := running }
          | _ => none
      | none => none
  | .written i =>
      match w.running[i]? with
      | some a =>
          match a.call with
          | .exchanging true e =>
              if e.sentByte then none
              else some { w with
                running := w.running.set i { a with call := .exchanging true (e.onWrite false) } }
          | _ => none
      | none => none
  | .writeError i =>
      match w.running[i]? with
      | some a =>
          match a.call with
          | .exchanging _ e =>
              -- a stream that reports a write error has been destroyed
              if e.sentByte ∨ (e.onWrite true).outcome ≠ some .rejected then none
              else some ({ w with
                running := w.running.eraseIdx i
                client := disconnectAll w.client [a.client] }.onRejected a)
          | _ => none
      | none => none
  | .timeout i =>
      match w.running[i]? with
      | some a =>
          match a.call with
          | .exchanging accepted e =>
              let (c, e') := onTimeout (w.client a.client) e
              some { w with
                client := Function.update w.client a.client c
                running := w.running.set i { a with call := .exchanging accepted e' } }
          | _ => none
      | none => none
  | .data c rx now =>
      if (w.client c).socket = .connected ∧ c ∈ w.joined then
        some ((w.running.filter (·.hears w.client c rx)).foldl (fun w a => w.onResolved a rx now)
          { w with running := w.running.filter (!·.hears w.client c rx) })
      else none
  | .close c =>
      if (w.client c).socket ≠ .closed ∧ c ∈ w.joined then
        some ((w.running.filter (·.losesSocket c)).foldl World.onRejected
          { w with
            client := setSocket w.client c .closed
            running := w.running.filter (!·.losesSocket c) }.endSession)
      else none

end GbPlay.Server.Tetris.Model
