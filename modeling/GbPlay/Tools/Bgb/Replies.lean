import GbPlay.Tools.Bgb.Framing

/-!
# What a server answers

`run` on whole packets, with data handlers that answer a byte or nothing, while
no send fails and no other thread acts.
-/

namespace GbPlay.Tools.Bgb.Replies

open GbPlay.Server.Client (Byte)
open GbPlay.Tools.Bgb.Framing

/-- The type and the three data bytes of a packet. -/
abbrev Content := Byte × Byte × Byte × Byte

def content (p : Packet) : Content := (p.b1, p.b2, p.b3, p.b4)

/-- The optional data handlers of `run`, which may share a state. -/
structure DataHandlers (ε : Type*) where
  master : Option (ε → Byte → ε × Option Byte)
  slave : Option (ε → Byte → ε × Option Byte)

variable {ε : Type*} (hs : DataHandlers ε)

def DataHandlers.find : Callback → Option (ε → Byte → ε × Option Byte)
  | .masterDataHandler => hs.master
  | .slaveDataHandler => hs.slave

def environment : Environment ε where
  given callback := (hs.find callback).isSome
  callback e callback data :=
    match hs.find callback with
    | some f => ((f e data).1, .returns ((f e data).2.map fun b => b.toNat))
    | none => (e, .returns none)
  send e _ := (e, true)
  meanwhile _ := []
  thread _ _ h := absurd h List.not_mem_nil

def sentContent : Action → Option Content
  | .sent _ p => some (content p)
  | _ => none

/-- What has been sent, in order. -/
def sent (s : Server) : List Content := (s.log.filterMap sentContent).reverse

/-! ## What is to be answered -/

def version : Content := (1, 1, 4, 0)

def status : Content := (108, 1, 0, 0)

/-- A packet of a known type is accounted for by the packets sent for it; `none` when it
ends the run. -/
def account (e : ε) (p : Packet) : Option (ε × List Content) :=
  match handlers p.b1 with
  | none => none
  | some .version => if (p.b2, p.b3, p.b4) = (1, 4, 0) then some (e, [status]) else none
  | some .status => some (e, [status])
  | some .joypadUpdate | some .wantDisconnect => some (e, [])
  | some .sync3 => some (e, [(106, p.b2, p.b3, p.b4)])
  | some .sync1 =>
      match hs.master with
      | none => some (e, [(106, 1, 0, 0)])
      | some f => some ((f e p.b2).1, (f e p.b2).2.toList.map fun b => (105, b, 0x80, 0))
  | some .sync2 =>
      match hs.slave with
      | none => some (e, [])
      | some f => some ((f e p.b2).1, (f e p.b2).2.toList.map fun b => (104, b, 0x81, 0))

/-- The accounts of the packets up to the end of the run. -/
def accounts (e : ε) : List Packet → List Content
  | [] => []
  | p :: rest =>
      match account hs e p with
      | none => []
      | some (e', replies) => replies ++ accounts e' rest

/-- What the slave handler answers to the packets up to the end of the run. -/
def slaveAnswers (e : ε) : List Packet → List (Option Byte)
  | [] => []
  | p :: rest =>
      match account hs e p with
      | none => []
      | some (e', _) =>
          match handlers p.b1, hs.slave with
          | some .sync2, some f => (f e p.b2).2 :: slaveAnswers e' rest
          | _, _ => slaveAnswers e' rest

/-- The packet that carries the byte 0 of the slave handler. -/
def zeroByte : Content := (104, 0, 0x81, 0)

/-! ## Up to the next `recv` -/

/-- `run` is at `recv`, and has not been stopped. -/
structure Ready (s : Server) : Prop where
  main : s.main = .receiving
  isRunning : s.isRunning = true

/-- `run` has come to `recv` with the handlers in state `e`, and has sent these packets. -/
structure Answered (s : Server) (e : ε) (replies : List Content) (x : ε × Server) : Prop where
  state : x.1 = e
  ready : Ready x.2
  sent : sent x.2 = sent s ++ replies

variable {hs} {e e' : ε} {s s' : Server} {p : Packet} {replies : List Content}
  {x : ε × Server}

theorem Answered.of_sent_eq (h : Answered s e replies x)
    (hsent : Replies.sent s = Replies.sent s') : Answered s' e replies x :=
  ⟨h.state, h.ready, hsent ▸ h.sent⟩

theorem Answered.eq (h : Answered s e replies x) : x = (e, x.2) := Prod.ext h.state rfl

theorem settle_checking (hmain : s.main = .checking) (hrunning : s.isRunning = true) :
    Answered s e [] (settle (environment hs) (e, s)) := by
  have hsettle : settle (environment hs) (e, s) = (e, { s with main := .receiving }) := by
    simp [settle, others, environment, Framing.reply, callBack, hmain, perform, step, hrunning]
  rw [hsettle]
  exact ⟨rfl, ⟨rfl, hrunning⟩, (List.append_nil _).symm⟩

theorem settle_sending {sender : Sender} {m : Message} {i1 : UInt32}
    (hmain : s.main = .sending sender m i1) (hrunning : s.isRunning = true)
    (hpack : m.pack i1 = some p) :
    Answered s e [content p] (settle (environment hs) (e, s)) := by
  have hsettle : settle (environment hs) (e, s) =
      (e, { s with main := .receiving, log := .sent sender p :: s.log }) := by
    simp [settle, others, environment, Framing.reply, callBack, hmain, perform, step, hrunning,
      Server.sendPacket, hpack]
  rw [hsettle]
  refine ⟨rfl, ⟨rfl, hrunning⟩, ?_⟩
  simp [sent, sentContent]

/-- The server goes on with the answer of a data handler as if it were its own. -/
theorem settle_calling {callback : Callback} {data : Byte} {f : ε → Byte → ε × Option Byte}
    (hmain : s.main = .calling callback data) (hf : hs.find callback = some f) :
    settle (environment hs) (e, s) =
      settle (environment hs) ((f e data).1,
        match answer callback ((f e data).2.map fun b => (b.toNat : Int)) with
        | none => { s with main := .checking }
        | some m => s.send .handler m) := by
  have hcall : callBack (environment hs) (e, s) = ((f e data).1,
      match answer callback ((f e data).2.map fun b => (b.toNat : Int)) with
      | none => { s with main := .checking }
      | some m => s.send .handler m) := by
    simp only [callBack, hmain, environment, hf, perform, step]
    cases answer callback ((f e data).2.map fun b => (b.toNat : Int)) <;> rfl
  rw [settle, hcall]
  rw [settle]
  cases answer callback ((f e data).2.map fun b => (b.toNat : Int)) <;> rfl

/-- A byte of a data handler can be packed. -/
theorem pack_byte (type b3 b4 b : Byte) (i1 : UInt32) :
    (Message.mk type b.toNat b3 b4).pack i1 = some ⟨type, b, b3, b4, i1⟩ := by
  have hrange : (0 : Int) ≤ b.toNat ∧ (b.toNat : Int) < 256 := by
    have := b.toNat_lt
    omega
  simp [Message.pack, hrange]

/-- The data handler has been silent. -/
theorem settle_silence {callback : Callback} {data : Byte} {f : ε → Byte → ε × Option Byte}
    (hmain : s.main = .calling callback data) (hrunning : s.isRunning = true)
    (hf : hs.find callback = some f)
    (hanswer : answer callback ((f e data).2.map fun b => (b.toNat : Int)) = none) :
    Answered s (f e data).1 [] (settle (environment hs) (e, s)) := by
  rw [settle_calling hmain hf, hanswer]
  have hchecking : Answered { s with main := .checking } (f e data).1 []
      (settle (environment hs) ((f e data).1, { s with main := .checking })) :=
    settle_checking rfl hrunning
  exact hchecking.of_sent_eq rfl

/-- The data handler has answered a byte. -/
theorem settle_answer {callback : Callback} {data : Byte} {f : ε → Byte → ε × Option Byte}
    {m : Message} (hmain : s.main = .calling callback data) (hrunning : s.isRunning = true)
    (hf : hs.find callback = some f)
    (hanswer : answer callback ((f e data).2.map fun b => (b.toNat : Int)) = some m)
    (hpack : m.pack s.lastReceivedTimestamp = some p) :
    Answered s (f e data).1 [content p] (settle (environment hs) (e, s)) := by
  rw [settle_calling hmain hf, hanswer]
  have hsending : Answered (s.send .handler m) (f e data).1 [content p]
      (settle (environment hs) ((f e data).1, s.send .handler m)) :=
    settle_sending rfl hrunning hpack
  exact hsending.of_sent_eq rfl

theorem settle_master {data : Byte} {f : ε → Byte → ε × Option Byte}
    (hmain : s.main = .calling .masterDataHandler data) (hrunning : s.isRunning = true)
    (hf : hs.master = some f) :
    Answered s (f e data).1 ((f e data).2.toList.map fun b => (105, b, 0x80, 0))
      (settle (environment hs) (e, s)) := by
  cases hresponse : (f e data).2 with
  | none =>
      have hanswer : answer .masterDataHandler
          ((f e data).2.map fun b => (b.toNat : Int)) = none := by
        rw [hresponse]
        rfl
      exact settle_silence hmain hrunning hf hanswer
  | some b =>
      have hanswer : answer .masterDataHandler ((f e data).2.map fun b => (b.toNat : Int)) =
          some { type := 105, b2 := b.toNat, b3 := 0x80 } := by
        rw [hresponse]
        rfl
      exact settle_answer hmain hrunning hf hanswer (pack_byte 105 0x80 0 b _)

/-- A byte 0 is taken for silence. -/
theorem settle_slave {data : Byte} {f : ε → Byte → ε × Option Byte}
    (hmain : s.main = .calling .slaveDataHandler data) (hrunning : s.isRunning = true)
    (hf : hs.slave = some f) :
    Answered s (f e data).1
      (((f e data).2.toList.map fun b => (104, b, 0x81, 0)).filter (· ≠ zeroByte))
      (settle (environment hs) (e, s)) := by
  cases hresponse : (f e data).2 with
  | none =>
      have hanswer : answer .slaveDataHandler
          ((f e data).2.map fun b => (b.toNat : Int)) = none := by
        rw [hresponse]
        rfl
      exact settle_silence hmain hrunning hf hanswer
  | some b =>
      by_cases hzero : b = 0
      · subst hzero
        have hanswer : answer .slaveDataHandler
            ((f e data).2.map fun b => (b.toNat : Int)) = none := by
          rw [hresponse]
          rfl
        exact settle_silence hmain hrunning hf hanswer
      · have htrue : (b.toNat : Int) ≠ 0 := by
          intro h
          exact hzero (UInt8.toNat_inj.mp (Int.ofNat.inj h))
        have hanswer : answer .slaveDataHandler ((f e data).2.map fun b => (b.toNat : Int)) =
            some (masterByte b.toNat) := by
          rw [hresponse]
          exact if_pos htrue
        have hkept : ([b].map fun b => ((104, b, 0x81, 0) : Content)).filter (· ≠ zeroByte) =
            [(104, b, 0x81, 0)] := by
          simp [zeroByte, hzero]
        rw [Option.toList_some, hkept]
        exact settle_answer hmain hrunning hf hanswer (pack_byte 104 0x81 0 b _)

theorem settle_over (hmain : s.main = .returned) : settle (environment hs) (e, s) = (e, s) := by
  simp [settle, others, environment, Framing.reply, callBack, hmain, perform, step]

/-! ## One packet -/

theorem turn_eq (hready : Ready s) (e : ε) (p : Packet) :
    turn (environment hs) (e, s) p.bytes = settle (environment hs)
      (e, (s.unpacked p.bytes p).dispatch (environment hs).given p) := by
  rw [turn, perform_recv hready.main (Nat.le_of_eq (length_bytes p)),
    Server.receive_of_unpack (unpack_bytes p)]

/-- A handler has been invoked, and has come to its send or its callback. -/
def handled (s : Server) : Handling → Server
  | .raises => s.leave
  | .returns => { s with main := .checking }
  | .sends m => s.send .handler m
  | .calls callback data =>
      { s with main := .calling callback data, log := .called callback data :: s.log }

theorem dispatch_eq (given : Callback → Bool) (s : Server) {h : Handler}
    (hhandler : handlers p.b1 = some h) :
    s.dispatch given p = handled { s with log := .dispatched h p.b2 p.b3 p.b4 :: s.log }
      (handle given h p.b2 p.b3 p.b4) := by
  simp only [Server.dispatch, hhandler]
  cases handle given h p.b2 p.b3 p.b4 <;> rfl

theorem settle_returns (hrunning : s.isRunning = true) :
    Answered s e [] (settle (environment hs) (e, handled s .returns)) :=
  (settle_checking (s := { s with main := .checking }) rfl hrunning).of_sent_eq rfl

theorem settle_sends {m : Message} (hrunning : s.isRunning = true)
    (hpack : m.pack s.lastReceivedTimestamp = some p) :
    Answered s e [content p] (settle (environment hs) (e, handled s (.sends m))) :=
  (settle_sending (s := s.send .handler m) rfl hrunning hpack).of_sent_eq rfl

theorem settle_calls {callback : Callback} {data : Byte} (hrunning : s.isRunning = true)
    (h : ∀ t : Server, t.main = .calling callback data → t.isRunning = true →
      Answered t e' replies (settle (environment hs) (e, t))) :
    Answered s e' replies (settle (environment hs) (e, handled s (.calls callback data))) :=
  (h (handled s (.calls callback data)) rfl hrunning).of_sent_eq rfl

/-- A known packet has been accounted for, but for a byte 0 of the slave handler. -/
theorem settle_handled {handler : Handler} (hrunning : s.isRunning = true)
    (hhandler : handlers p.b1 = some handler) (h : account hs e p = some (e', replies)) :
    Answered s e' (replies.filter (· ≠ zeroByte)) (settle (environment hs)
      (e, handled s (handle (environment hs).given handler p.b2 p.b3 p.b4))) := by
  simp only [account, hhandler] at h
  cases handler with
  | version =>
      by_cases hversion : (p.b2, p.b3, p.b4) = (1, 4, 0)
      · simp only [hversion, if_true, Option.some.injEq, Prod.mk.injEq] at h
        obtain ⟨rfl, rfl⟩ := h
        simp only [handle, hversion, ne_eq, not_true, if_false]
        exact settle_sends hrunning (pack_byte 108 0 0 1 _)
      · simp [hversion] at h
  | joypadUpdate => cases h; exact settle_returns hrunning
  | wantDisconnect => cases h; exact settle_returns hrunning
  | status => cases h; exact settle_sends hrunning (pack_byte 108 0 0 1 _)
  | sync3 => cases h; exact settle_sends hrunning (pack_byte 106 p.b3 p.b4 p.b2 _)
  | sync1 =>
      cases hmaster : hs.master with
      | none =>
          simp only [hmaster] at h
          cases h
          have hgiven : (environment hs).given .masterDataHandler = false := by
            simp [environment, DataHandlers.find, hmaster]
          simp only [handle, hgiven]
          exact settle_sends hrunning (pack_byte 106 0 0 1 _)
      | some f =>
          simp only [hmaster] at h
          cases h
          have hgiven : (environment hs).given .masterDataHandler = true := by
            simp [environment, DataHandlers.find, hmaster]
          have hkept : ((f e p.b2).2.toList.map fun b => ((105, b, 0x80, 0) : Content)).filter
              (· ≠ zeroByte) = (f e p.b2).2.toList.map fun b => (105, b, 0x80, 0) := by
            refine List.filter_eq_self.mpr fun c hc => ?_
            obtain ⟨b, _, rfl⟩ := List.mem_map.mp hc
            simp [zeroByte]
          rw [hkept]
          simp only [handle, hgiven]
          exact settle_calls hrunning fun t hmain hrun => settle_master hmain hrun hmaster
  | sync2 =>
      cases hslave : hs.slave with
      | none =>
          simp only [hslave] at h
          cases h
          have hgiven : (environment hs).given .slaveDataHandler = false := by
            simp [environment, DataHandlers.find, hslave]
          simp only [handle, hgiven]
          exact settle_returns hrunning
      | some f =>
          simp only [hslave] at h
          cases h
          have hgiven : (environment hs).given .slaveDataHandler = true := by
            simp [environment, DataHandlers.find, hslave]
          simp only [handle, hgiven]
          exact settle_calls hrunning fun t hmain hrun => settle_slave hmain hrun hslave

theorem sent_unpacked (s : Server) (data : List Byte) (p : Packet) :
    sent (s.unpacked data p) = sent s := by
  rw [sent, Server.log_unpacked]
  rfl

/-- The packet has been answered, but for a byte 0 of the slave handler. -/
theorem turn_of_account (hready : Ready s) (h : account hs e p = some (e', replies)) :
    Answered s e' (replies.filter (· ≠ zeroByte)) (turn (environment hs) (e, s) p.bytes) := by
  obtain ⟨handler, hhandler⟩ : ∃ handler, handlers p.b1 = some handler := by
    refine Option.ne_none_iff_exists'.mp fun hnone => ?_
    simp [account, hnone] at h
  have hrunning : (s.unpacked p.bytes p).isRunning = true := by simpa using hready.isRunning
  have hsettle := settle_handled
    (s := { s.unpacked p.bytes p with
      log := .dispatched handler p.b2 p.b3 p.b4 :: (s.unpacked p.bytes p).log })
    hrunning hhandler h
  rw [turn_eq hready, dispatch_eq _ _ hhandler]
  exact hsettle.of_sent_eq (sent_unpacked s p.bytes p)

/-- The packet ends the run. -/
theorem turn_of_not_account (hready : Ready s) (h : account hs e p = none) :
    (turn (environment hs) (e, s) p.bytes).2.main = .returned ∧
      sent (turn (environment hs) (e, s) p.bytes).2 = sent s := by
  have hdispatch : ∃ t : Server, sent t = sent s ∧
      (s.unpacked p.bytes p).dispatch (environment hs).given p = t.leave := by
    cases hhandler : handlers p.b1 with
    | none => exact ⟨_, sent_unpacked s p.bytes p, by simp only [Server.dispatch, hhandler]⟩
    | some handler =>
        have hraises : handle (environment hs).given handler p.b2 p.b3 p.b4 = .raises := by
          simp only [account, hhandler] at h
          cases handler with
          | version =>
              have hversion : (p.b2, p.b3, p.b4) ≠ (1, 4, 0) := by
                intro heq
                simp [heq] at h
              exact if_pos hversion
          | joypadUpdate | wantDisconnect | status | sync3 => cases h
          | sync1 => cases hmaster : hs.master <;> simp [hmaster] at h
          | sync2 => cases hslave : hs.slave <;> simp [hslave] at h
        rw [dispatch_eq _ _ hhandler, hraises]
        exact ⟨{ s.unpacked p.bytes p with
          log := .dispatched handler p.b2 p.b3 p.b4 :: (s.unpacked p.bytes p).log },
          sent_unpacked s p.bytes p, rfl⟩
  obtain ⟨t, hsent, hleave⟩ := hdispatch
  rw [turn_eq hready, hleave, settle_over rfl]
  exact ⟨rfl, hsent⟩

/-! ## The run -/

theorem connect_eq (hs : DataHandlers ε) (e : ε) :
    (connect (environment hs) e).1 = e ∧ Ready (connect (environment hs) e).2 ∧
      sent (connect (environment hs) e).2 = [version] :=
  ⟨rfl, ⟨rfl, rfl⟩, rfl⟩

/-- By induction on the packets: every packet up to the end of the run is accounted for,
but for the bytes 0 of the slave handler. -/
theorem sent_serve (hs : DataHandlers ε) {e : ε} {s : Server} (hready : Ready s)
    (packets : List Packet) :
    sent (serve (environment hs) (e, s) (packets.map Packet.bytes)) =
      sent s ++ (accounts hs e packets).filter (· ≠ zeroByte) := by
  induction packets generalizing e s with
  | nil => exact (List.append_nil _).symm
  | cons p packets ih =>
      rw [List.map_cons, serve, if_pos hready.main]
      cases haccount : account hs e p with
      | none =>
          obtain ⟨hreturned, hsent⟩ := turn_of_not_account hready haccount
          have hnot : (turn (environment hs) (e, s) p.bytes).2.main ≠ .receiving := by
            simp [hreturned]
          rw [serve_over _ hnot, hsent]
          simp [accounts, haccount]
      | some x =>
          obtain ⟨e', replies⟩ := x
          have hanswered := turn_of_account hready haccount
          rw [hanswered.eq, ih hanswered.ready, hanswered.sent, List.append_assoc,
            ← List.filter_append]
          simp [accounts, haccount]

/-- A packet of another version, or of an unknown type. -/
def endsRun (p : Packet) : Bool :=
  match handlers p.b1 with
  | none => true
  | some .version => (p.b2, p.b3, p.b4) ≠ (1, 4, 0)
  | some _ => false

theorem account_eq_none_iff (hs : DataHandlers ε) (e : ε) (p : Packet) :
    account hs e p = none ↔ endsRun p = true := by
  unfold account endsRun
  cases handlers p.b1 with
  | none => simp
  | some handler =>
      cases handler with
      | version => by_cases h : (p.b2, p.b3, p.b4) = (1, 4, 0) <;> simp [h]
      | joypadUpdate | wantDisconnect | status | sync3 => simp
      | sync1 => cases hs.master <;> simp
      | sync2 => cases hs.slave <;> simp

/-- The run is over if and only if one of the packets ends it. -/
theorem returned_serve_iff (hs : DataHandlers ε) {e : ε} {s : Server} (hready : Ready s)
    (packets : List Packet) :
    (serve (environment hs) (e, s) (packets.map Packet.bytes)).main = .returned ↔
      packets.any endsRun = true := by
  induction packets generalizing e s with
  | nil => simp [serve, hready.main]
  | cons p packets ih =>
      rw [List.map_cons, serve, if_pos hready.main, List.any_cons, Bool.or_eq_true]
      cases haccount : account hs e p with
      | none =>
          have hreturned := (turn_of_not_account hready haccount).1
          have hnot : (turn (environment hs) (e, s) p.bytes).2.main ≠ .receiving := by
            simp [hreturned]
          rw [serve_over _ hnot]
          exact iff_of_true hreturned (.inl ((account_eq_none_iff hs e p).mp haccount))
      | some x =>
          obtain ⟨e', replies⟩ := x
          have hanswered := turn_of_account hready haccount
          have hnot : ¬endsRun p = true := by
            rw [← account_eq_none_iff hs e p, haccount]
            simp
          rw [hanswered.eq, ih hanswered.ready, or_iff_right hnot]

/-! ## The contract -/

/-- The packets sent account for the packets received, and another version ends the run. -/
structure Accounted (hs : DataHandlers ε) (e : ε) (packets : List Packet) (s : Server) :
    Prop where
  sent : sent s = version :: accounts hs e packets
  ended : s.main = .returned ↔ packets.any endsRun = true

/-- The slave handler answers the byte 0 to the packet. -/
def AnswersZero (hs : DataHandlers ε) (e : ε) (p : Packet) : Prop :=
  handlers p.b1 = some .sync2 ∧ ∃ f, hs.slave = some f ∧ (f e p.b2).2 = some 0

theorem zeroByte_mem_iff (h : account hs e p = some (e', replies)) :
    zeroByte ∈ replies ↔ AnswersZero hs e p := by
  unfold account at h
  unfold AnswersZero
  cases hhandler : handlers p.b1 with
  | none => simp [hhandler] at h
  | some handler =>
      simp only [hhandler] at h
      cases handler with
      | version =>
          dsimp only at h
          split at h <;> cases h
          simp [zeroByte, status]
      | status => cases h; simp [zeroByte, status]
      | joypadUpdate | wantDisconnect => cases h; simp
      | sync3 => cases h; simp [zeroByte]
      | sync1 =>
          cases hmaster : hs.master <;> simp only [hmaster] at h <;> cases h <;> simp [zeroByte]
      | sync2 =>
          cases hslave : hs.slave <;> simp only [hslave] at h <;> cases h <;> simp [zeroByte]

theorem zero_mem_slaveAnswers_iff (h : account hs e p = some (e', replies))
    (packets : List Packet) :
    some 0 ∈ slaveAnswers hs e (p :: packets) ↔
      AnswersZero hs e p ∨ some 0 ∈ slaveAnswers hs e' packets := by
  simp only [slaveAnswers, h, AnswersZero]
  cases handlers p.b1 with
  | none => simp
  | some handler =>
      cases handler with
      | version | status | joypadUpdate | wantDisconnect | sync3 | sync1 => simp
      | sync2 => cases hs.slave <;> simp [eq_comm]

theorem zeroByte_mem_accounts_iff (hs : DataHandlers ε) (e : ε) (packets : List Packet) :
    zeroByte ∈ accounts hs e packets ↔ some 0 ∈ slaveAnswers hs e packets := by
  induction packets generalizing e with
  | nil => simp [accounts, slaveAnswers]
  | cons p packets ih =>
      cases haccount : account hs e p with
      | none => simp [accounts, slaveAnswers, haccount]
      | some x =>
          obtain ⟨e', replies⟩ := x
          rw [zero_mem_slaveAnswers_iff haccount, ← zeroByte_mem_iff haccount, ← ih e']
          simp [accounts, haccount]

/-- The packets sent are exactly those that the packets received call for, if and only if
the slave handler answers the byte 0 to none of them. -/
theorem accounted_iff (hs : DataHandlers ε) (e : ε) (packets : List Packet) :
    Accounted hs e packets
        (serve (environment hs) (connect (environment hs) e) (packets.map Packet.bytes)) ↔
      some 0 ∉ slaveAnswers hs e packets := by
  obtain ⟨hstate, hready, hversion⟩ := connect_eq hs e
  have hconnect : connect (environment hs) e = (e, (connect (environment hs) e).2) := rfl
  have hsent := sent_serve hs (e := e) hready packets
  rw [← hconnect, hversion, List.singleton_append] at hsent
  rw [← zeroByte_mem_accounts_iff]
  constructor
  · intro h hmem
    have hfiltered := (List.cons_inj_right version).mp (hsent.symm.trans h.sent)
    have hkept := List.filter_eq_self.mp hfiltered zeroByte hmem
    simp at hkept
  · intro hmem
    have hfiltered : (accounts hs e packets).filter (· ≠ zeroByte) = accounts hs e packets := by
      rw [List.filter_eq_self]
      intro c hc
      have hne : c ≠ zeroByte := by
        rintro rfl
        exact hmem hc
      simpa using hne
    exact ⟨hfiltered ▸ hsent, returned_serve_iff hs hready packets⟩

/-- Both handlers answer the byte 0 to everything. -/
def zeros : DataHandlers Unit where
  master := some fun e _ => (e, some 0)
  slave := some fun e _ => (e, some 0)

/-- The byte 0 of the master handler is sent, that of the slave handler is not. -/
theorem zero_dropped :
    ¬Accounted zeros () [⟨104, 7, 0x81, 0, 10⟩, ⟨105, 7, 0x80, 0, 11⟩]
        (serve (environment zeros) (connect (environment zeros) ())
          ([⟨104, 7, 0x81, 0, 10⟩, ⟨105, 7, 0x80, 0, 11⟩].map Packet.bytes)) ∧
      sent (serve (environment zeros) (connect (environment zeros) ())
        ([⟨104, 7, 0x81, 0, 10⟩, ⟨105, 7, 0x80, 0, 11⟩].map Packet.bytes)) =
          [version, (105, 0, 0x80, 0)] := by
  refine ⟨fun h => ?_, by decide⟩
  exact absurd h.sent (by decide)

end GbPlay.Tools.Bgb.Replies
