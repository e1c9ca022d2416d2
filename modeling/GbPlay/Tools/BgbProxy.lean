import GbPlay.Tools.Bgb.Server

/-!
# The BGB proxy

`BGBProxyTCPClient` (`gb_tcp.py`) between an emulator and a `GBSerialTCPServer`:
the thread of `run`, whose `on_slave_data` forwards the bytes of the emulator, and
the thread of `wait_for_master_data`, which forwards those of the server.  The
emulator answers every sync1 once and sends what it likes at any time; the server
alternates between sending a byte and receiving one.

A byte of the emulator is tracked by the number of the server's byte that it is the
answer to, which the code does not know.
-/

namespace GbPlay.Tools.BgbProxy

open GbPlay.Library.Runs
open GbPlay.Server.Client (Byte)
open GbPlay.Tools.Bgb (Callback Packet packetSizeBytes)

/-- `run` is given `slave_data_handler` only. -/
def given : Callback → Bool
  | .masterDataHandler => false
  | .slaveDataHandler => true

/-- Where `wait_for_master_data` is. -/
inductive MasterThread
  | notStarted
  | receiving
  /-- It has received byte `i` of the server and sleeps. -/
  | sleeping (i : Nat) (data : Byte)
  /-- in `send_master_byte` -/
  | sending (i : Nat)
  | over
  deriving DecidableEq, Repr

/-- Where `_exchange_byte` is. -/
inductive Exchange
  | sending
  | receiving
  deriving DecidableEq, Repr

/-- A byte of the emulator, and the byte of the server that it answers, if any. -/
structure Tracked where
  data : Byte
  answers : Option Nat
  deriving DecidableEq, Repr

/-- `unanswered` are the sync1s that the emulator has not answered yet, by the bytes of
the server that they carry; `current` is the one that the packet received last answers. -/
structure World where
  bgb : Bgb.Server := {}
  connected : Bool := false
  masterThread : MasterThread := .notStarted
  unanswered : List Nat := []
  fromEmulator : List (Packet × Option Nat) := []
  current : Option Nat := none
  exchange : Exchange := .sending
  served : Nat := 0
  fromServer : List (Nat × Byte) := []
  received : Nat := 0
  toServer : List Tracked := []
  forwarded : List Tracked := []
  returned : List Tracked := []
  deriving DecidableEq, Repr

inductive Label
  | accept
  | check
  /-- The next packet of the emulator is received. -/
  | recv
  /-- A part of a packet is, or nothing since the connection was dropped. -/
  | recvPart (data : List Byte)
  | recvError
  | send (ok : Bool)
  /-- `tcp_link.connect` -/
  | connect (ok : Bool)
  /-- `tcp_link.sendall` -/
  | sendall (ok : Bool)
  /-- `tcp_link.recv` returns a byte. -/
  | masterRecv
  /-- It returns nothing, and the thread stops the server. -/
  | masterClosed
  | masterError
  | sendMasterByte
  | threadSend (ok : Bool)
  | emulatorSends (p : Packet)
  | emulatorAnswers (k : Nat) (p : Packet)
  | serverSends (data : Byte)
  /-- `_exchange_byte` returns. -/
  | serverReturns
  deriving DecidableEq, Repr

namespace World

/-- A step of the link cable server. -/
def onBgb (s : World) (l : Bgb.Label) : Option World :=
  (Bgb.step given s.bgb l).map fun bgb => { s with bgb := bgb }

/-- A byte of the emulator is sent to the server. -/
def forward (s : World) (data : Byte) : World :=
  { s with
    toServer := s.toServer ++ [⟨data, s.current⟩]
    forwarded := s.forwarded ++ [⟨data, s.current⟩] }

/-- The sync1 of the master thread reaches the emulator. -/
def delivers (s : World) (ok : Bool) : Bool :=
  ok && s.bgb.threads.head?.any fun call => s.bgb.reachesConnection call.1 call.2

end World

def sync2 : Byte := 105

def step (s : World) : Label → Option World
  | .accept => s.onBgb .accept
  | .check => s.onBgb .check
  | .recv =>
      match s.fromEmulator with
      | [] => none
      | (p, answers) :: rest =>
          ({ s with fromEmulator := rest, current := answers } : World).onBgb (.recv p.bytes)
  | .recvPart data => if data.length < packetSizeBytes then s.onBgb (.recv data) else none
  | .recvError => s.onBgb .recvError
  | .send ok => s.onBgb (.send ok)
  | .connect ok =>
      match s.bgb.main with
      | .calling .slaveDataHandler _ =>
          if s.connected then none
          else if ok then some { s with connected := true, masterThread := .receiving }
          else s.onBgb (.callback .raises)
      | _ => none
  | .sendall ok =>
      match s.bgb.main with
      | .calling .slaveDataHandler data =>
          if !s.connected then none
          else if ok then (s.forward data).onBgb (.callback (.returns none))
          else s.onBgb (.callback .raises)
      | _ => none
  | .masterRecv =>
      match s.masterThread, s.fromServer with
      | .receiving, (i, data) :: rest =>
          some { s with
            fromServer := rest
            received := s.received + 1
            masterThread := .sleeping i data }
      | _, _ => none
  | .masterClosed =>
      match s.masterThread with
      | .receiving => ({ s with masterThread := .over } : World).onBgb .stop
      | _ => none
  | .masterError =>
      match s.masterThread with
      | .receiving => some { s with masterThread := .over }
      | _ => none
  | .sendMasterByte =>
      match s.masterThread with
      | .sleeping i data =>
          ({ s with masterThread := .sending i } : World).onBgb (.sendMasterByte data.toNat)
      | _ => none
  | .threadSend ok =>
      match s.masterThread with
      | .sending i =>
          ({ s with
            masterThread := .receiving
            unanswered := if s.delivers ok then s.unanswered ++ [i] else s.unanswered } :
              World).onBgb (.threadSend 0 ok)
      | _ => none
  | .emulatorSends p => some { s with fromEmulator := s.fromEmulator ++ [(p, none)] }
  | .emulatorAnswers k p =>
      match s.unanswered[k]? with
      | some i =>
          if p.b1 = sync2 then
            some { s with
              unanswered := s.unanswered.eraseIdx k
              fromEmulator := s.fromEmulator ++ [(p, some i)] }
          else none
      | none => none
  | .serverSends data =>
      match s.exchange with
      | .sending =>
          if s.connected then
            some { s with
              served := s.served + 1
              fromServer := s.fromServer ++ [(s.served, data)]
              exchange := .receiving }
          else none
      | .receiving => none
  | .serverReturns =>
      match s.exchange, s.toServer with
      | .receiving, x :: rest =>
          some { s with
            toServer := rest
            returned := s.returned ++ [x]
            exchange := .sending }
      | _, _ => none

/-! ## What a step can do -/

/-- Steps that change what the server has been sent or returned. -/
def Label.isExchange : Label → Bool
  | .sendall true | .serverReturns => true
  | _ => false

/-- Steps of `run` that are none of a callback. -/
def isRunStep : Bgb.Label → Bool
  | .accept | .check | .recv _ | .recvError | .send _ => true
  | _ => false

/-- The steps, with what the master thread has received and sent left open. -/
inductive Move (s : World) : Label → World → Prop
  | run {l : Label} {l' : Bgb.Label} {bgb : Bgb.Server} : l.isExchange = false →
      isRunStep l' = true → Bgb.step given s.bgb l' = some bgb → Move s l { s with bgb := bgb }
  | recv {p : Packet} {answers : Option Nat} {rest : List (Packet × Option Nat)}
      {bgb : Bgb.Server} : s.fromEmulator = (p, answers) :: rest →
      Bgb.step given s.bgb (.recv p.bytes) = some bgb →
      Move s .recv { s with bgb := bgb, fromEmulator := rest, current := answers }
  | raise {l : Label} {bgb : Bgb.Server} : l.isExchange = false →
      Bgb.step given s.bgb (.callback .raises) = some bgb → Move s l { s with bgb := bgb }
  | connect {data : Byte} : s.bgb.main = .calling .slaveDataHandler data →
      s.connected = false →
      Move s (.connect true) { s with connected := true, masterThread := .receiving }
  | sendall {data : Byte} {bgb : Bgb.Server} : s.bgb.main = .calling .slaveDataHandler data →
      s.connected = true → Bgb.step given s.bgb (.callback (.returns none)) = some bgb →
      Move s (.sendall true) { s.forward data with bgb := bgb }
  | masterThread {l : Label} {bgb : Bgb.Server} {thread : MasterThread} {unanswered : List Nat}
      {fromServer : List (Nat × Byte)} {received : Nat} : l.isExchange = false →
      s.masterThread ≠ .notStarted → bgb.main = s.bgb.main → s.received ≤ received →
      Move s l { s with
        bgb := bgb
        masterThread := thread
        unanswered := unanswered
        fromServer := fromServer
        received := received }
  | emulatorSends {p : Packet} :
      Move s (.emulatorSends p) { s with fromEmulator := s.fromEmulator ++ [(p, none)] }
  | emulatorAnswers {k i : Nat} {p : Packet} : s.unanswered[k]? = some i → p.b1 = sync2 →
      Move s (.emulatorAnswers k p) { s with
        unanswered := s.unanswered.eraseIdx k
        fromEmulator := s.fromEmulator ++ [(p, some i)] }
  | serverSends {data : Byte} : s.exchange = .sending → s.connected = true →
      Move s (.serverSends data) { s with
        served := s.served + 1
        fromServer := s.fromServer ++ [(s.served, data)]
        exchange := .receiving }
  | serverReturns {x : Tracked} {rest : List Tracked} : s.exchange = .receiving →
      s.toServer = x :: rest →
      Move s .serverReturns { s with
        toServer := rest
        returned := s.returned ++ [x]
        exchange := .sending }

section Move

variable {s s' : World}

theorem onBgb_eq_some {l : Bgb.Label} : s.onBgb l = some s' ↔
    ∃ bgb, Bgb.step given s.bgb l = some bgb ∧ s' = { s with bgb := bgb } := by
  rw [World.onBgb, Option.map_eq_some_iff]
  exact exists_congr fun bgb => and_congr_right fun _ => eq_comm

theorem main_of_isThread {b b' : Bgb.Server} {l : Bgb.Label} (hl : l.isThread = true)
    (h : Bgb.step given b l = some b') : b'.main = b.main := by
  cases Bgb.move_of_step h with
  | stop => rfl
  | sendMasterByte => rfl
  | threadSend => exact Bgb.Server.sendPacket_main
  | _ => cases hl

theorem move_of_run {l : Label} {l' : Bgb.Label} (hl : l.isExchange = false)
    (hl' : isRunStep l' = true) (h : s.onBgb l' = some s') : Move s l s' := by
  obtain ⟨bgb, hbgb, rfl⟩ := onBgb_eq_some.mp h
  exact .run hl hl' hbgb

theorem move_of_raise {l : Label} (hl : l.isExchange = false)
    (h : s.onBgb (.callback .raises) = some s') : Move s l s' := by
  obtain ⟨bgb, hbgb, rfl⟩ := onBgb_eq_some.mp h
  exact .raise hl hbgb

theorem move_of_step {l : Label} (h : step s l = some s') : Move s l s' := by
  cases l with
  | accept => exact move_of_run rfl rfl h
  | check => exact move_of_run rfl rfl h
  | recv =>
      simp only [step] at h
      split at h
      · cases h
      · rename_i hnext
        obtain ⟨bgb, hbgb, rfl⟩ := onBgb_eq_some.mp h
        exact .recv hnext hbgb
  | recvPart data =>
      simp only [step] at h
      split at h
      · exact move_of_run rfl rfl h
      · cases h
  | recvError => exact move_of_run rfl rfl h
  | send ok => exact move_of_run rfl rfl h
  | connect ok =>
      simp only [step] at h
      split at h
      · rename_i hmain
        split at h
        · cases h
        · rename_i hconnected
          split at h
          · rename_i hok
            cases h
            exact hok ▸ .connect hmain (by simpa using hconnected)
          · exact move_of_raise rfl h
      · cases h
  | sendall ok =>
      simp only [step] at h
      split at h
      · rename_i hmain
        split at h
        · cases h
        · rename_i hconnected
          cases ok with
          | true =>
              obtain ⟨bgb, hbgb, rfl⟩ := onBgb_eq_some.mp h
              exact .sendall hmain (by simpa using hconnected) hbgb
          | false => exact move_of_raise rfl h
      · cases h
  | masterRecv =>
      simp only [step] at h
      split at h
      · rename_i hthread _
        cases h
        exact .masterThread rfl (by simp [hthread]) rfl (Nat.le_succ _)
      · cases h
  | masterClosed =>
      simp only [step] at h
      split at h
      · rename_i hthread
        obtain ⟨bgb, hbgb, rfl⟩ := onBgb_eq_some.mp h
        exact .masterThread rfl (by simp [hthread]) (main_of_isThread rfl hbgb) (Nat.le_refl _)
      · cases h
  | masterError =>
      simp only [step] at h
      split at h
      · rename_i hthread
        cases h
        exact .masterThread rfl (by simp [hthread]) rfl (Nat.le_refl _)
      · cases h
  | sendMasterByte =>
      simp only [step] at h
      split at h
      · rename_i hthread
        obtain ⟨bgb, hbgb, rfl⟩ := onBgb_eq_some.mp h
        exact .masterThread rfl (by simp [hthread]) (main_of_isThread rfl hbgb) (Nat.le_refl _)
      · cases h
  | threadSend ok =>
      simp only [step] at h
      split at h
      · rename_i hthread
        obtain ⟨bgb, hbgb, rfl⟩ := onBgb_eq_some.mp h
        exact .masterThread rfl (by simp [hthread]) (main_of_isThread rfl hbgb) (Nat.le_refl _)
      · cases h
  | emulatorSends p =>
      cases h
      exact .emulatorSends
  | emulatorAnswers k p =>
      simp only [step] at h
      split at h
      · split at h <;> cases h
        exact .emulatorAnswers ‹_› ‹_›
      · cases h
  | serverSends data =>
      simp only [step] at h
      split at h
      · split at h <;> cases h
        exact .serverSends ‹_› ‹_›
      · cases h
  | serverReturns =>
      simp only [step] at h
      split at h <;> cases h
      exact .serverReturns ‹_› ‹_›

end Move

/-! ## Pairing -/

/-- Every value returned answers the byte it was exchanged for, and the server has not
been sent more than has been received from it. -/
structure Paired (s : World) : Prop where
  returned : ∀ (i : Nat) (x : Tracked), s.returned[i]? = some x → x.answers = some i
  bounded : s.forwarded.length ≤ s.received

/-- No exchange is completed, and a byte is forwarded only while there is one of the
server's that none has been forwarded for. -/
def Withholds (s : World) (l : Label) : Prop :=
  l ≠ .serverReturns ∧ (l = .sendall true → s.forwarded.length < s.received)

instance (s : World) (l : Label) : Decidable (Withholds s l) :=
  inferInstanceAs (Decidable (_ ∧ (_ → _)))

theorem withholds_of_not_isExchange {s : World} {l : Label} (hl : l.isExchange = false) :
    Withholds s l := by
  constructor
  · rintro rfl
    cases hl
  · rintro rfl
    cases hl

/-! ## The first byte that is forwarded -/

/-- The connection to the server is opened to forward a byte that answers none of its
bytes. -/
structure Inv (s : World) : Prop where
  unconnected : s.connected = false →
    (∀ x ∈ s.fromEmulator, x.2 = none) ∧ s.current = none ∧ s.unanswered = [] ∧
      s.masterThread = .notStarted ∧ s.forwarded = []
  opening : s.connected = true → s.forwarded = [] →
    (s.current = none ∧ ∃ data, s.bgb.main = .calling .slaveDataHandler data) ∨
      s.bgb.main = .returned
  first : ∀ x : Tracked, s.forwarded.head? = some x → x.answers = none
  fifo : s.returned ++ s.toServer = s.forwarded

theorem inv_init : Inv {} := by
  constructor <;> simp

section Step

variable {s s' : World}

theorem main_of_isRunStep {b b' : Bgb.Server} {l : Bgb.Label} (hl : isRunStep l = true)
    (h : Bgb.step given b l = some b') :
    b.main ≠ .returned ∧ ∀ callback data, b.main ≠ .calling callback data := by
  cases Bgb.move_of_step h with
  | accept hmain | goOn hmain | stopped hmain | receive hmain | recvError hmain | send hmain =>
      simp [hmain]
  | _ => cases hl

theorem main_of_raises {b b' : Bgb.Server}
    (h : Bgb.step given b (.callback .raises) = some b') : b'.main = .returned := by
  cases Bgb.move_of_step h
  rfl

/-- The link cable server goes on, and nothing is opened or forwarded. -/
theorem Inv.bgb (h : Inv s) {bgb : Bgb.Server}
    (hmain : s.bgb.main ≠ .returned ∧ (∀ callback data, s.bgb.main ≠ .calling callback data) ∨
      bgb.main = s.bgb.main ∨ bgb.main = .returned) : Inv { s with bgb := bgb } := by
  refine { h with opening := fun hconnected hforwarded => ?_ }
  have hopening := h.opening hconnected hforwarded
  rcases hmain with ⟨hreturned, hcalling⟩ | heq | heq
  · rcases hopening with ⟨_, data, hdata⟩ | hreturned'
    · exact absurd hdata (hcalling _ data)
    · exact absurd hreturned' hreturned
  · simpa only [heq] using hopening
  · exact .inr heq

theorem Inv.recv (h : Inv s) {p : Packet} {answers : Option Nat}
    {rest : List (Packet × Option Nat)} {bgb : Bgb.Server}
    (hnext : s.fromEmulator = (p, answers) :: rest)
    (hbgb : Bgb.step given s.bgb (.recv p.bytes) = some bgb) :
    Inv { s with bgb := bgb, fromEmulator := rest, current := answers } := by
  obtain ⟨hreturned, hcalling⟩ := main_of_isRunStep rfl hbgb
  refine { h with unconnected := fun hconnected => ?_, opening := fun hconnected hforwarded => ?_ }
  · obtain ⟨htracked, _, hrest⟩ := h.unconnected hconnected
    rw [hnext] at htracked
    obtain ⟨hcurrent, htracked⟩ := List.forall_mem_cons.mp htracked
    exact ⟨htracked, hcurrent, hrest⟩
  · rcases h.opening hconnected hforwarded with ⟨_, data, hdata⟩ | hreturned'
    · exact absurd hdata (hcalling _ data)
    · exact absurd hreturned' hreturned

theorem Inv.connect (h : Inv s) {data : Byte} (hmain : s.bgb.main = .calling .slaveDataHandler data)
    (hconnected : s.connected = false) :
    Inv { s with connected := true, masterThread := .receiving } := by
  refine { h with unconnected := fun hopen => ?_, opening := fun _ _ => ?_ }
  · cases hopen
  · exact .inl ⟨(h.unconnected hconnected).2.1, data, hmain⟩

theorem Inv.forward (h : Inv s) {data : Byte} {bgb : Bgb.Server}
    (hmain : s.bgb.main = .calling .slaveDataHandler data) (hconnected : s.connected = true) :
    Inv { s.forward data with bgb := bgb } := by
  have hfirst : ∀ x : Tracked,
      (s.forwarded ++ [(⟨data, s.current⟩ : Tracked)]).head? = some x → x.answers = none := by
    intro x hx
    cases hforwarded : s.forwarded with
    | nil =>
        rw [hforwarded] at hx
        cases hx
        rcases h.opening hconnected hforwarded with ⟨hcurrent, _⟩ | hreturned
        · exact hcurrent
        · rw [hmain] at hreturned
          cases hreturned
    | cons y ys =>
        rw [hforwarded] at hx
        exact h.first x (by rw [hforwarded]; exact hx)
  constructor
  case unconnected => exact fun hopen => absurd hopen (by simp [World.forward, hconnected])
  case opening => exact fun _ hforwarded => absurd hforwarded (by simp [World.forward])
  case first => exact hfirst
  case fifo => simp [World.forward, ← h.fifo]

theorem Inv.connected_of_masterThread (h : Inv s) (hthread : s.masterThread ≠ .notStarted) :
    s.connected = true := by
  cases hconnected : s.connected with
  | true => rfl
  | false => exact absurd (h.unconnected hconnected).2.2.2.1 hthread

/-- A step of the master thread, once there is one. -/
theorem Inv.masterThread (h : Inv s) {bgb : Bgb.Server} {thread : MasterThread}
    {unanswered : List Nat} {fromServer : List (Nat × Byte)} {received : Nat}
    (hthread : s.masterThread ≠ .notStarted) (hmain : bgb.main = s.bgb.main) :
    Inv { s with
      bgb := bgb
      masterThread := thread
      unanswered := unanswered
      fromServer := fromServer
      received := received } := by
  have hconnected := h.connected_of_masterThread hthread
  have hgoesOn := h.bgb (.inr (.inl hmain))
  exact { hgoesOn with unconnected := fun hopen => absurd hopen (by simp [hconnected]) }

theorem Inv.emulatorAnswers (h : Inv s) {k i : Nat} (hk : s.unanswered[k]? = some i) (p : Packet) :
    Inv { s with
      unanswered := s.unanswered.eraseIdx k
      fromEmulator := s.fromEmulator ++ [(p, some i)] } := by
  refine { h with unconnected := fun hopen => ?_ }
  rw [(h.unconnected hopen).2.2.1] at hk
  cases hk

theorem Inv.emulatorSends (h : Inv s) (p : Packet) :
    Inv { s with fromEmulator := s.fromEmulator ++ [(p, none)] } := by
  refine { h with unconnected := fun hopen => ?_ }
  obtain ⟨htracked, hrest⟩ := h.unconnected hopen
  refine ⟨fun x hx => ?_, hrest⟩
  rcases List.mem_append.mp hx with hx | hx
  · exact htracked x hx
  · rw [List.mem_singleton.mp hx]

theorem Inv.serverReturns (h : Inv s) {x : Tracked} {rest : List Tracked}
    (hnext : s.toServer = x :: rest) :
    Inv { s with toServer := rest, returned := s.returned ++ [x], exchange := .sending } := by
  refine { h with fifo := ?_ }
  rw [← h.fifo, hnext, List.append_assoc]
  rfl

theorem inv_step {l : Label} (h : Inv s) (hmove : Move s l s') : Inv s' := by
  cases hmove with
  | run _ hl' hbgb => exact h.bgb (.inl (main_of_isRunStep hl' hbgb))
  | recv hnext hbgb => exact h.recv hnext hbgb
  | raise _ hbgb => exact h.bgb (.inr (.inr (main_of_raises hbgb)))
  | connect hmain hconnected => exact h.connect hmain hconnected
  | sendall hmain hconnected => exact h.forward hmain hconnected
  | masterThread _ hthread hmain => exact h.masterThread hthread hmain
  | emulatorSends => exact h.emulatorSends _
  | emulatorAnswers hk => exact h.emulatorAnswers hk _
  | serverSends => exact { h with }
  | serverReturns _ hnext => exact h.serverReturns hnext

/-! ## Runs that withhold -/

/-- Nothing has been returned, and no more forwarded than received. -/
structure Withheld (s : World) : Prop where
  inv : Inv s
  returned : s.returned = []
  bounded : s.forwarded.length ≤ s.received

theorem withheld_init : Withheld {} := ⟨inv_init, rfl, Nat.le_refl 0⟩

theorem Withheld.paired (h : Withheld s) : Paired s := by
  refine ⟨fun i x hx => ?_, h.bounded⟩
  rw [h.returned] at hx
  cases hx

/-- The value that is returned first answers no byte of the server. -/
theorem not_paired_of_returned (h : Inv s) (hreturned : s.returned = []) {x : Tracked}
    {rest : List Tracked} (hnext : s.toServer = x :: rest) :
    ¬ Paired { s with toServer := rest, returned := s.returned ++ [x], exchange := .sending } := by
  intro hpaired
  have hfifo := h.fifo
  rw [hreturned, hnext, List.nil_append] at hfifo
  have hnone := h.first x (by rw [← hfifo]; rfl)
  have hsome := hpaired.returned 0 x (by rw [hreturned]; rfl)
  rw [hnone] at hsome
  cases hsome

theorem withheld_step {l : Label} (h : Withheld s) (hwithholds : Withholds s l)
    (hmove : Move s l s') : Withheld s' := by
  have hinv := inv_step h.inv hmove
  cases hmove with
  | sendall =>
      have hlt := hwithholds.2 rfl
      exact ⟨hinv, h.returned, by simpa [World.forward] using Nat.succ_le_of_lt hlt⟩
  | masterThread _ _ _ hreceived => exact ⟨hinv, h.returned, Nat.le_trans h.bounded hreceived⟩
  | serverReturns => exact absurd rfl hwithholds.1
  | run | recv | raise | connect | emulatorSends | emulatorAnswers | serverSends =>
      exact ⟨hinv, h.returned, h.bounded⟩

theorem withholds_of_paired {l : Label} (h : Withheld s) (hmove : Move s l s')
    (hpaired : Paired s') : Withholds s l := by
  cases hmove with
  | sendall =>
      have hbounded := hpaired.bounded
      rw [World.forward, List.length_append] at hbounded
      exact ⟨by simp, fun _ => hbounded⟩
  | serverReturns _ hnext =>
      exact absurd hpaired (not_paired_of_returned h.inv h.returned hnext)
  | run hl | raise hl | masterThread hl => exact withholds_of_not_isExchange hl
  | recv | connect | emulatorSends | emulatorAnswers | serverSends =>
      exact withholds_of_not_isExchange rfl

end Step

/-! ## The contract -/

/-- Requests and responses are paired in every state of a run if and only if no
exchange of the server is completed in it, and bytes are forwarded only while the proxy
has received more than it has forwarded. -/
theorem paired_iff_withholds {ls : List Label} {s : World} (h : Run (Fires step) {} ls s) :
    (∀ ls' s', ls' <+: ls → Run (Fires step) {} ls' s' → Paired s') ↔
      Run (FiresWhen Withholds step) {} ls s :=
  h.forall_prefix_iff withheld_init
    (fun _ _ _ hwithheld hwithholds hstep =>
      withheld_step hwithheld hwithholds (move_of_step hstep))
    (fun _ => Withheld.paired)
    fun _ _ _ hwithheld hstep => withholds_of_paired hwithheld (move_of_step hstep)

/-- The emulator connects and sends a sync2 of its own. -/
def firstTransfer : List Label :=
  [.accept, .send true, .check, .emulatorSends ⟨sync2, 0x29, 0x80, 0, 100⟩, .recv, .connect true]

/-- The server's first byte arrives before the emulator's is forwarded. -/
theorem paired_iff_withholds_first :
    ∃ s, Run (Fires step) {}
        (firstTransfer ++ [.serverSends 0x29, .masterRecv, .sendall true]) s ∧
      s.forwarded.length = 1 ∧ Paired s := by
  have hrun : (exec (guarded Withholds step) {}
      (firstTransfer ++ [.serverSends 0x29, .masterRecv, .sendall true])).any
      (fun s => decide (s.forwarded.length = 1)) = true := by
    decide
  obtain ⟨s, hguarded, hforwarded⟩ := exists_run_of_exec hrun
  have hwithholds := hguarded.mono fun _ _ _ hfire => guarded_fires hfire
  have hfires := hwithholds.mono fun _ _ _ hfire => hfire.2
  have hpaired := (paired_iff_withholds hfires).mpr hwithholds _ s List.prefix_rfl hfires
  exact ⟨s, hfires, of_decide_eq_true hforwarded, hpaired⟩

/-- What the emulator has sent on its own is forwarded before anything has been
received, and the server takes it for the answer to its first byte. -/
theorem first_answer_mispaired :
    ∃ s, Reachable (Fires step) {} s ∧ s.received < s.forwarded.length ∧
      s.returned = [⟨0x29, none⟩] ∧ ¬ Paired s := by
  have hrun : (exec step {} (firstTransfer ++ [.sendall true, .serverSends 0x29,
      .serverReturns])).any (fun s =>
        decide (s.received < s.forwarded.length ∧ s.returned = [⟨0x29, none⟩])) = true := by
    decide
  obtain ⟨s, hs, hp⟩ := exists_reachable_of_exec hrun
  obtain ⟨hunbounded, hreturned⟩ := of_decide_eq_true hp
  exact ⟨s, hs, hunbounded, hreturned, fun hpaired => Nat.not_le_of_lt hunbounded hpaired.bounded⟩

end GbPlay.Tools.BgbProxy
