import GbPlay.Esp.Socket.Ongoing
import GbPlay.Esp.SocketManager.Model

/-!
# The connections of the socket manager

What the task has done at any moment of its run, which never ends: which descriptors are
open, and what has been passed on between the server and the Game Boy.
-/

namespace GbPlay.Esp.SocketManager

open GbPlay.Library GbPlay.Library.Calls GbPlay.Library.Calls.Program
open GbPlay.Esp.Socket (Fd Held Prepares Silent closed closed_append created created_append
  received received_append sent sent_append socketConnect socketRead socketWrite)

def socketEvent (e : Event Answer) : Option (Event Socket.Answer) :=
  match e with
  | ⟨.socket c, r⟩ => some ⟨c, r⟩
  | _ => none

/-- The bytes of a transfer with the Game Boy, to it and from it. -/
def exchangedBy (e : Event Answer) : Option (UInt8 × UInt8) :=
  match e with
  | ⟨.spiExchangeByte tx, rx⟩ => some (tx, rx)
  | _ => none

def socketTrace (t : Trace Answer) : Trace Socket.Answer := t.filterMap socketEvent

def exchanged (t : Trace Answer) : List (UInt8 × UInt8) := t.filterMap exchangedBy

/-- The bytes of the server have been passed on to the Game Boy and its answers to the server,
in order and none twice; a byte is received when all before it have been answered. -/
structure Relaying (sock : Fd) (t : Trace Answer) : Prop where
  requests : (exchanged t).map Prod.fst <+: received sock (socketTrace t)
  answers : sent sock (socketTrace t) <+: (exchanged t).map Prod.snd
  lockStep : (received sock (socketTrace t)).length ≤ (sent sock (socketTrace t)).length + 1

/-- Everything received has been answered. -/
structure Answered (sock : Fd) (t : Trace Answer) : Prop where
  requests : (exchanged t).map Prod.fst = received sock (socketTrace t)
  answers : sent sock (socketTrace t) = (exchanged t).map Prod.snd

variable {t t' : Trace Answer} {sock : Fd}

@[simp] theorem socketTrace_append (t t' : Trace Answer) :
    socketTrace (t ++ t') = socketTrace t ++ socketTrace t' := List.filterMap_append

@[simp] theorem exchanged_append (t t' : Trace Answer) :
    exchanged (t ++ t') = exchanged t ++ exchanged t' := List.filterMap_append

/-! ## Relaying -/

theorem Answered.append (h : Answered sock t) (h' : Relaying sock t') :
    Relaying sock (t ++ t') := by
  have hlength : (received sock (socketTrace t)).length = (sent sock (socketTrace t)).length := by
    rw [← h.requests, h.answers, List.length_map, List.length_map]
  constructor
  · rw [exchanged_append, List.map_append, socketTrace_append, received_append, h.requests]
    exact (List.prefix_append_right_inj _).mpr h'.requests
  · rw [exchanged_append, List.map_append, socketTrace_append, sent_append, h.answers]
    exact (List.prefix_append_right_inj _).mpr h'.answers
  · have hstep := h'.lockStep
    simp only [socketTrace_append, received_append, sent_append, List.length_append]
    omega

/-- The function of `socket.c` makes no other calls than its own. -/
theorem exchanged_of_onSockets (h : ∀ e ∈ t, ∃ c, e.call = .socket c) : exchanged t = [] := by
  rw [exchanged, List.filterMap_eq_nil_iff]
  intro e he
  obtain ⟨c, r⟩ := e
  obtain ⟨c', rfl⟩ := h _ he
  rfl

section OnSockets

variable {α : Type} {p : Program Socket.Answer α}

theorem begins_onSockets (h : (onSockets p).Begins t) : p.Begins (socketTrace t) :=
  begins_of_embed (g := Call.socket) (fun _ _ => rfl) h

theorem returns_onSockets {a : α} (h : (onSockets p).Returns t a) :
    p.Returns (socketTrace t) a :=
  returns_of_embed (g := Call.socket) (fun _ _ => rfl) h

theorem onlyCalls_onSockets (p : Program Socket.Answer α) :
    (onSockets p).OnlyCalls fun c => ∃ c', c = .socket c' := by
  induction p with
  | done a => trivial
  | stuck => trivial
  | call c next ih => exact ⟨⟨c, rfl⟩, ih⟩

theorem always_onSockets {Q : Trace Socket.Answer → Prop} (h : p.Always Q) :
    (onSockets p).Always fun t => Q (socketTrace t) ∧ exchanged t = [] := by
  intro t hbegins
  exact ⟨h _ (begins_onSockets hbegins),
    exchanged_of_onSockets ((onlyCalls_onSockets p).always t hbegins)⟩

end OnSockets

/-! ## A turn -/

/-- What a call to `socket_read` or `socket_write` has not touched. -/
theorem received_of_writes (h : ∀ e ∈ socketTrace t, ∃ bytes, e.call = .send sock bytes) :
    received sock (socketTrace t) = [] := by
  rw [received, List.flatMap_eq_nil_iff]
  intro e he
  obtain ⟨bytes, hcall⟩ := h e he
  obtain ⟨c, r⟩ := e
  obtain rfl : c = _ := hcall
  rfl

theorem sent_of_reads (h : ∀ e ∈ socketTrace t, ∃ len, e.call = .recv sock len) :
    sent sock (socketTrace t) = [] := by
  rw [sent, List.flatMap_eq_nil_iff]
  intro e he
  obtain ⟨len, hcall⟩ := h e he
  obtain ⟨c, r⟩ := e
  obtain rfl : c = _ := hcall
  rfl

/-- While it reads, the task has received one byte at most. -/
theorem always_read (turns : Nat) (sock : Fd) (rx : BitVec 32) (memory : Memory 32) :
    (onSockets (socketRead turns sock rx 1 memory)).Always (Relaying sock) := by
  intro t hbegins
  have hreceived := Socket.always_socketRead turns sock rx 1 memory _ (begins_onSockets hbegins)
  have hsent := sent_of_reads
    ((Socket.onlyCalls_socketRead turns sock rx 1 memory).always _ (begins_onSockets hbegins))
  have hexchanged := exchanged_of_onSockets ((onlyCalls_onSockets _).always t hbegins)
  constructor
  · rw [hexchanged]
    exact List.nil_prefix
  · rw [hsent]
    exact List.nil_prefix
  · rw [hsent]
    exact hreceived

/-- The byte is in `rx` when it has been read. -/
theorem ensures_read (turns : Nat) (sock : Fd) (rx : BitVec 32) (memory : Memory 32) :
    (onSockets (socketRead turns sock rx 1 memory)).Ensures fun t r =>
      exchanged t = [] ∧ sent sock (socketTrace t) = [] ∧
        (r.1 = true → received sock (socketTrace t) = [r.2 rx]) := by
  intro t r hreturns
  have hreads := returns_onSockets hreturns
  have hstored := Socket.ensures_socketRead turns sock rx 1 memory _ r hreads
  refine ⟨exchanged_of_onSockets ((onlyCalls_onSockets _).ensures t r hreturns), ?_, fun hok => ?_⟩
  · exact sent_of_reads ((Socket.onlyCalls_socketRead turns sock rx 1 memory).ensures _ r hreads)
  · have hlength := hstored.whole.mp hok
    obtain ⟨b, hb⟩ := List.length_eq_one_iff.mp hlength
    have hload := hstored.load
    rw [hb] at hload ⊢
    simpa [Memory.load] using hload.symm

theorem load_store_one (memory : Memory 32) (a : BitVec 32) (b : UInt8) :
    (memory.store a [b]).load a 1 = [b] :=
  Memory.load_store Nat.one_le_two_pow

/-- While it answers, what has been sent is nothing or the answer. -/
theorem always_write (turns : Nat) (sock : Fd) (tx : BitVec 32) (memory : Memory 32)
    (answer : UInt8) :
    (onSockets (socketWrite turns sock tx 1 (memory.store tx [answer]))).Always fun t =>
      exchanged t = [] ∧ received sock (socketTrace t) = [] ∧
        sent sock (socketTrace t) <+: [answer] := by
  intro t hbegins
  have hwrites := begins_onSockets hbegins
  have hsent := Socket.always_socketWrite turns sock tx 1 _ _ hwrites
  refine ⟨exchanged_of_onSockets ((onlyCalls_onSockets _).always t hbegins), ?_, ?_⟩
  · exact received_of_writes ((Socket.onlyCalls_socketWrite turns sock tx 1 _).always _ hwrites)
  · exact load_store_one memory tx answer ▸ hsent

theorem ensures_write (turns : Nat) (sock : Fd) (tx : BitVec 32) (memory : Memory 32)
    (answer : UInt8) :
    (onSockets (socketWrite turns sock tx 1 (memory.store tx [answer]))).Ensures fun t ok =>
      ok = true → sent sock (socketTrace t) = [answer] := by
  intro t ok hreturns hok
  have hwritten := Socket.ensures_socketWrite turns sock tx 1 _ _ ok (returns_onSockets hreturns)
  exact (hwritten.whole.mp hok).trans (load_store_one memory tx answer)

/-- A byte that has been read is exchanged, and its answer may be under way. -/
theorem relaying_exchanged {rx answer : UInt8} {tr tw : Trace Answer}
    (hread : exchanged tr = [] ∧ sent sock (socketTrace tr) = [] ∧
      received sock (socketTrace tr) = [rx])
    (hwrite : exchanged tw = [] ∧ received sock (socketTrace tw) = [] ∧
      sent sock (socketTrace tw) <+: [answer]) :
    Relaying sock (tr ++ ⟨.spiExchangeByte rx, answer⟩ :: tw) := by
  have hexchanged : exchanged (tr ++ ⟨.spiExchangeByte rx, answer⟩ :: tw) = [(rx, answer)] := by
    rw [exchanged_append, hread.1, List.nil_append]
    show (rx, answer) :: exchanged tw = _
    rw [hwrite.1]
  have htrace : socketTrace (tr ++ ⟨.spiExchangeByte rx, answer⟩ :: tw) =
      socketTrace tr ++ socketTrace tw := socketTrace_append _ _
  have hreceived : received sock (socketTrace tr ++ socketTrace tw) = [rx] := by
    rw [received_append, hread.2.2, hwrite.2.1, List.append_nil]
  have hsent : sent sock (socketTrace tr ++ socketTrace tw) = sent sock (socketTrace tw) := by
    rw [sent_append, hread.2.1, List.nil_append]
  constructor
  · rw [hexchanged, htrace, hreceived]
    exact List.prefix_rfl
  · rw [hexchanged, htrace, hsent]
    exact hwrite.2.2
  · rw [htrace, hreceived]
    exact Nat.succ_le_succ (Nat.zero_le _)

theorem always_handleDataTurn (turns : Nat) (sock : Fd) (rx tx : BitVec 32)
    (memory : Memory 32) :
    (handleDataTurn turns sock rx tx memory).Always (Relaying sock) := by
  refine always_bind (always_read turns sock rx _) ?_
  intro t r hreturns
  obtain ⟨ok, memory'⟩ := r
  obtain ⟨hexchanged, hsent, hreceived⟩ := ensures_read turns sock rx _ t _ hreturns
  have hread : Relaying sock t := always_read turns sock rx _ t (begins_of_returns hreturns)
  dsimp only
  split
  case isFalse =>
      apply always_pure
      rwa [List.append_nil]
  case isTrue hok =>
      have hbyte := hreceived hok
      refine always_perform ?_ fun answer => ?_
      · rwa [List.append_nil]
      · have hwrite := always_write turns sock tx memory' answer
        refine always_bind ?_ fun tw ok hreturns => ?_
        · exact hwrite.mono fun tw htw => relaying_exchanged ⟨hexchanged, hsent, hbyte⟩ htw
        · have htw := hwrite tw (begins_of_returns hreturns)
          dsimp only
          split <;>
          · apply always_pure
            rw [List.append_nil]
            exact relaying_exchanged ⟨hexchanged, hsent, hbyte⟩ htw

/-- A turn that does not leave the loop has answered the byte it has received. -/
theorem ensures_handleDataTurn (turns : Nat) (sock : Fd) (rx tx : BitVec 32)
    (memory : Memory 32) :
    (handleDataTurn turns sock rx tx memory).Ensures fun t r =>
      ∀ memory', r = .inl memory' → Answered sock t := by
  apply ensures_bind
  intro t r hreturns
  obtain ⟨ok, memory'⟩ := r
  obtain ⟨hexchanged, hsent, hreceived⟩ := ensures_read turns sock rx _ t _ hreturns
  dsimp only
  split
  case isFalse =>
      apply ensures_pure
      nofun
  case isTrue hok =>
      have hbyte := hreceived hok
      refine ensures_perform fun answer => ensures_bind ?_
      intro tw ok hreturns
      have hwrite := ensures_write turns sock tx memory' answer tw ok hreturns
      obtain ⟨hexchanged', hreceived', _⟩ :=
        always_write turns sock tx memory' answer tw (begins_of_returns hreturns)
      split
      case isFalse =>
          apply ensures_pure
          nofun
      case isTrue hok =>
          apply ensures_pure
          intro _ _
          rw [List.append_nil]
          constructor
          · rw [exchanged_append, hexchanged, socketTrace_append, received_append, hbyte]
            show _ :: (exchanged tw).map Prod.fst = _ ++ received sock (socketTrace tw)
            rw [hexchanged', hreceived']
            rfl
          · rw [exchanged_append, hexchanged, socketTrace_append, sent_append, hsent]
            show sent sock (socketTrace tw) = _ :: (exchanged tw).map Prod.snd
            rw [hexchanged', hwrite hok]
            rfl

theorem relaying_nil (sock : Fd) : Relaying sock [] :=
  ⟨List.nil_prefix, List.nil_prefix, Nat.zero_le _⟩

/-- Until an error ends it, a connection relays. -/
theorem always_handleDataUntilError (turns : Nat) (sock : Fd) (rx tx : BitVec 32)
    (memory : Memory 32) :
    (handleDataUntilError turns sock rx tx memory).Always (Relaying sock) := by
  refine always_loop (I := fun _ => True) (Q := fun _ => Relaying sock)
    (fun _ _ => relaying_nil sock)
    (fun memory _ => always_handleDataTurn turns sock rx tx memory) ?_ turns memory trivial
  intro memory _ t r hreturns memory' hr
  have hanswered := ensures_handleDataTurn turns sock rx tx memory t r hreturns memory' hr
  exact ⟨trivial, fun t' ht' => hanswered.append ht'⟩

/-! ## Connections -/

/-- The descriptor on which the call transfers something. -/
def transfersOn (e : Event Answer) : Option Fd :=
  match e.call with
  | .socket (.recv sock _) | .socket (.send sock _) => some sock
  | _ => none

/-- Transfers nothing, neither with the server nor with the Game Boy. -/
def Idle : Call → Prop
  | .socket c => Silent c
  | .spiExchangeByte _ => False
  | _ => True

/-- What holds at every moment: one descriptor at most is open, which is the one created last;
transfers are made on the one that is open; and since it was created, it relays. -/
structure Sound (t : Trace Answer) : Prop where
  held : Held (socketTrace t)
  onOpen : ∀ before e after sock, t = before ++ e :: after → transfersOn e = some sock →
    created (socketTrace before) = closed (socketTrace before) ++ [sock]
  relayed : ∀ before family socktype protocol sock during,
    t = before ++ ⟨.socket (.socket family socktype protocol), .ok sock⟩ :: during →
      closed (socketTrace during) = [] → Relaying sock during

theorem split_append {α : Type*} {t t' before after : List α} {e : α}
    (h : t ++ t' = before ++ e :: after) :
    (∃ d, t = before ++ e :: d ∧ after = d ++ t') ∨
      ∃ b, before = t ++ b ∧ t' = b ++ e :: after := by
  rcases List.append_eq_append_iff.mp h with ⟨b, hbefore, ht'⟩ | ⟨d, ht, hafter⟩
  · exact .inr ⟨b, hbefore, ht'⟩
  · cases d with
    | nil =>
        rw [List.append_nil] at ht
        exact .inr ⟨[], by rw [ht, List.append_nil], hafter.symm⟩
    | cons x d =>
        obtain ⟨rfl, rfl⟩ := List.cons.inj hafter
        exact .inl ⟨d, ht, rfl⟩

theorem answered_of_idle (h : ∀ e ∈ t, Idle e.call) : Answered sock t := by
  have hexchanged : exchanged t = [] := by
    rw [exchanged, List.filterMap_eq_nil_iff]
    intro e he
    have hidle := h e he
    obtain ⟨c, r⟩ := e
    cases c <;> first | rfl | exact absurd hidle id
  have hsilent : ∀ e ∈ socketTrace t, Silent e.call := by
    intro e he
    obtain ⟨e', he', hsocket⟩ := List.mem_filterMap.mp he
    have hidle := h e' he'
    obtain ⟨c, r⟩ := e'
    cases c <;> cases hsocket
    exact hidle
  have hreceived : received sock (socketTrace t) = [] := by
    rw [received, List.flatMap_eq_nil_iff]
    intro e he
    have hcall := hsilent e he
    obtain ⟨c, r⟩ := e
    cases c <;> first | rfl | exact absurd hcall id
  have hsent : sent sock (socketTrace t) = [] := by
    rw [sent, List.flatMap_eq_nil_iff]
    intro e he
    have hcall := hsilent e he
    obtain ⟨c, r⟩ := e
    cases c <;> first | rfl | exact absurd hcall id
  exact ⟨by rw [hexchanged, hreceived]; rfl, by rw [hexchanged, hsent]; rfl⟩

theorem relaying_of_idle (h : ∀ e ∈ t, Idle e.call) : Relaying sock t := by
  have hrelaying := (answered_of_idle h).append (relaying_nil sock)
  rwa [List.append_nil] at hrelaying

theorem transfersOn_of_idle {e : Event Answer} (h : Idle e.call) : transfersOn e = none := by
  obtain ⟨c, r⟩ := e
  cases c with
  | socket c => cases c <;> first | rfl | exact absurd h id
  | _ => rfl

/-- While it is connecting. -/
theorem sound_of_idle (hidle : ∀ e ∈ t, Idle e.call) (hheld : Held (socketTrace t)) : Sound t := by
  refine ⟨hheld, ?_, ?_⟩
  · rintro before e after sock rfl hsock
    rw [transfersOn_of_idle (hidle e (by simp))] at hsock
    cases hsock
  · rintro before family socktype protocol sock during rfl _
    exact relaying_of_idle fun e he => hidle e (by simp [he])

/-- Transfers on one descriptor, and with the Game Boy. -/
def Transfers (sock : Fd) : Call → Prop
  | .socket (.recv sock' _) | .socket (.send sock' _) => sock' = sock
  | .spiExchangeByte _ => True
  | _ => False

theorem created_of_transfers (h : ∀ e ∈ t, Transfers sock e.call) :
    created (socketTrace t) = [] ∧ closed (socketTrace t) = [] := by
  have hquiet : Socket.Quiet (socketTrace t) := by
    intro e he
    obtain ⟨e', he', hsocket⟩ := List.mem_filterMap.mp he
    have htransfers := h e' he'
    obtain ⟨c, r⟩ := e'
    cases c with
    | socket c =>
        cases hsocket
        cases c <;> trivial
    | _ => cases hsocket
  exact ⟨hquiet.created_eq_nil, hquiet.closed_eq_nil⟩

theorem transfersOn_of_transfers {e : Event Answer} {sock' : Fd} (h : Transfers sock e.call)
    (hsock : transfersOn e = some sock') : sock' = sock := by
  obtain ⟨c, r⟩ := e
  cases c with
  | socket c =>
      cases c <;> first | exact absurd h id | skip
      all_goals exact (Option.some.inj hsock).symm.trans h
  | _ => cases hsock

/-- The descriptor that is open is the one created last. -/
theorem eq_of_created {before after : Trace Socket.Answer} {family socktype protocol : Int}
    {sock' : Fd} (hbefore : Held before)
    (hopen : created (before ++ ⟨.socket family socktype protocol, .ok sock'⟩ :: after) =
      closed (before ++ ⟨.socket family socktype protocol, .ok sock'⟩ :: after) ++ [sock])
    (hclosed : closed after = []) : sock' = sock := by
  obtain ⟨o, ho⟩ := hbefore
  have hcreated : created (before ++ ⟨.socket family socktype protocol, .ok sock'⟩ :: after) =
      created before ++ sock' :: created after := created_append _ _
  have hclosed' : closed (before ++ ⟨.socket family socktype protocol, .ok sock'⟩ :: after) =
      closed before ++ closed after := closed_append _ _
  rw [hcreated, hclosed', ho, hclosed, List.append_nil, List.append_assoc,
    List.append_cancel_left_eq] at hopen
  cases o with
  | none => exact (List.cons.inj hopen).1
  | some sock₀ => simp at hopen

/-- The task relays on the descriptor that is open. -/
theorem sound_relaying {r : Trace Answer} (hidle : ∀ e ∈ t, Idle e.call)
    (hbefore : ∀ p, p <+: t → Held (socketTrace p))
    (hopen : created (socketTrace t) = closed (socketTrace t) ++ [sock])
    (htransfers : ∀ e ∈ r, Transfers sock e.call) (hrelaying : Relaying sock r) :
    Sound (t ++ r) := by
  obtain ⟨hcreated, hclosed⟩ := created_of_transfers htransfers
  constructor
  case held =>
      refine ⟨some sock, ?_⟩
      rw [socketTrace_append, created_append, closed_append, hcreated, hclosed, hopen,
        List.append_nil, List.append_nil]
      rfl
  case onOpen =>
      intro before e after sock' heq hsock
      rcases split_append heq with ⟨d, rfl, rfl⟩ | ⟨b, rfl, rfl⟩
      · rw [transfersOn_of_idle (hidle e (by simp))] at hsock
        cases hsock
      · obtain rfl := transfersOn_of_transfers (htransfers e (by simp)) hsock
        have hb : ∀ e ∈ b, Transfers sock' e.call := fun e he => htransfers e (by simp [he])
        obtain ⟨hcreated', hclosed'⟩ := created_of_transfers hb
        rw [socketTrace_append, created_append, closed_append, hcreated', hclosed', hopen,
          List.append_nil, List.append_nil]
  case relayed =>
      intro before family socktype protocol sock' during heq hnone
      rcases split_append heq with ⟨d, rfl, rfl⟩ | ⟨b, rfl, rfl⟩
      · rw [socketTrace_append, closed_append, hclosed, List.append_nil] at hnone
        have hheld := hbefore before (List.prefix_append _ _)
        rw [socketTrace_append] at hopen
        obtain rfl := eq_of_created hheld hopen hnone
        have hd : ∀ e ∈ d, Idle e.call := fun e he => hidle e (by simp [he])
        exact (answered_of_idle hd).append hrelaying
      · have hcall := htransfers ⟨.socket (.socket family socktype protocol), .ok sock'⟩ (by simp)
        exact absurd hcall id

/-- A descriptor is closed. -/
theorem Sound.close (h : Sound t)
    (hopen : created (socketTrace t) = closed (socketTrace t) ++ [sock]) :
    Sound (t ++ [⟨.socket (.close sock), ()⟩]) := by
  have hcreated : created (socketTrace (t ++ [⟨.socket (.close sock), ()⟩])) =
      created (socketTrace t) := by
    rw [socketTrace_append, created_append]
    exact List.append_nil _
  have hclosed : closed (socketTrace (t ++ [⟨.socket (.close sock), ()⟩])) =
      closed (socketTrace t) ++ [sock] := by
    rw [socketTrace_append, closed_append]
    rfl
  constructor
  case held => exact ⟨none, by rw [hcreated, hclosed, hopen]; exact (List.append_nil _).symm⟩
  case onOpen =>
      intro before e after sock' heq hsock
      rcases split_append heq with ⟨d, ht, rfl⟩ | ⟨b, rfl, hb⟩
      · exact h.onOpen before e d sock' ht hsock
      · cases b with
        | nil =>
            obtain rfl := (List.cons.inj hb).1
            cases hsock
        | cons x b => simp at hb
  case relayed =>
      intro before family socktype protocol sock' during heq hnone
      rcases split_append heq with ⟨d, ht, rfl⟩ | ⟨b, rfl, hb⟩
      · rw [socketTrace_append, closed_append, List.append_eq_nil_iff] at hnone
        exact absurd hnone.2 (List.cons_ne_nil _ _)
      · cases b with
        | nil => simp at hb
        | cons x b => simp at hb

/-- A turn starts when all descriptors of the turns before it are closed. -/
theorem Sound.append (h : ∀ p, p <+: t → Sound p)
    (hclosed : created (socketTrace t) = closed (socketTrace t)) (h' : Sound t') :
    Sound (t ++ t') := by
  have ht : Sound t := h t List.prefix_rfl
  constructor
  case held =>
      rw [socketTrace_append]
      exact h'.held.append hclosed
  case onOpen =>
      intro before e after sock heq hsock
      rcases split_append heq with ⟨d, hd, rfl⟩ | ⟨b, rfl, hb⟩
      · exact ht.onOpen before e d sock hd hsock
      · have hopen := h'.onOpen b e after sock hb hsock
        rw [socketTrace_append, created_append, closed_append, hclosed, hopen, List.append_assoc]
  case relayed =>
      intro before family socktype protocol sock during heq hnone
      rcases split_append heq with ⟨d, rfl, rfl⟩ | ⟨b, rfl, hb⟩
      · -- the descriptor has been closed in its own turn
        rw [socketTrace_append, closed_append, List.append_eq_nil_iff] at hnone
        obtain ⟨o, ho⟩ := (h before (List.prefix_append _ _)).held
        have hlength := congrArg List.length hclosed
        rw [socketTrace_append, created_append, closed_append] at hlength
        change (created _ ++ sock :: created (socketTrace d)).length =
          (closed _ ++ closed (socketTrace d)).length at hlength
        rw [ho, hnone.1] at hlength
        simp at hlength
      · exact h'.relayed b family socktype protocol sock during hb hnone

/-! ## The task -/

theorem onlyCalls_awaitNetwork : awaitNetwork.OnlyCalls Idle := by
  refine onlyCalls_perform trivial fun connected => ?_
  split
  · exact onlyCalls_pure ()
  · exact onlyCalls_perform trivial fun _ => onlyCalls_pure ()

theorem ensures_awaitNetwork : awaitNetwork.Ensures fun t _ => socketTrace t = [] := by
  refine ensures_perform fun connected => ?_
  split
  · exact ensures_pure rfl
  · exact ensures_perform fun _ => ensures_pure rfl

theorem always_awaitNetwork : awaitNetwork.Always fun t => socketTrace t = [] := by
  refine always_perform rfl fun connected => ?_
  split
  · exact always_pure rfl
  · exact always_perform rfl fun _ => always_pure rfl

theorem onlyCalls_connectToServer (turns : Nat) : (connectToServer turns).OnlyCalls Idle := by
  refine onlyCalls_perform trivial fun serverHost => onlyCalls_perform trivial fun port => ?_
  refine onlyCalls_bind ?_ fun sock => onlyCalls_pure _
  refine onlyCalls_bind ?_ fun sock => ?_
  · exact (Socket.onlyCalls_socketConnect turns _ _ _).embed (g := Call.socket)
  · cases sock <;> exact onlyCalls_pure _

/-- The descriptor that `_connect_to_server` returns, if it is one. -/
def opened (sock : Int) : Option Fd := if sock < 0 then none else some sock.toNat

theorem ensures_carryOut (turns : Nat) (serverHost : ServerPort.Host) (serverPort : UInt16)
    (timeoutMs : Int) :
    (carryOut turns (.socketConnect serverHost serverPort timeoutMs)).Ensures fun t sock =>
      created (socketTrace t) = closed (socketTrace t) ++ (opened sock).toList := by
  apply ensures_bind
  intro t result hreturns
  have hrest := (Socket.socketConnect_accounts (returns_onSockets hreturns)).1.rest
  cases result with
  | none =>
      apply ensures_pure
      rw [List.append_nil]
      exact hrest
  | some sock =>
      apply ensures_pure
      rw [List.append_nil]
      exact hrest

theorem always_carryOut (turns : Nat) (serverHost : ServerPort.Host) (serverPort : UInt16)
    (timeoutMs : Int) :
    (carryOut turns (.socketConnect serverHost serverPort timeoutMs)).Always fun t =>
      Held (socketTrace t) := by
  have hconnect := always_onSockets
    (Socket.always_socketConnect turns (hostName serverHost) serverPort timeoutMs)
  refine always_bind (hconnect.mono fun t ht => ht.1) ?_
  intro t result hreturns
  have hheld := (hconnect t (begins_of_returns hreturns)).1
  cases result <;>
  · apply always_pure
    rwa [List.append_nil]

theorem always_connectToServer (turns : Nat) :
    (connectToServer turns).Always fun t => Held (socketTrace t) := by
  have hnil : Held [] := ⟨none, rfl⟩
  refine always_perform hnil fun serverHost => always_perform hnil fun port => ?_
  refine always_bind (always_carryOut turns _ _ _) fun t sock hreturns => ?_
  apply always_pure
  rw [List.append_nil]
  exact always_carryOut turns _ _ _ t (begins_of_returns hreturns)

theorem ensures_connectToServer (turns : Nat) :
    (connectToServer turns).Ensures fun t sock =>
      created (socketTrace t) = closed (socketTrace t) ++ (opened sock).toList := by
  refine ensures_perform fun serverHost => ensures_perform fun port => ?_
  refine ensures_bind ((ensures_carryOut turns _ _ _).mono fun t sock h => ?_)
  apply ensures_pure
  rw [List.append_nil]
  exact h

theorem onlyCalls_handleDataUntilError (turns : Nat) (sock : Fd) (rx tx : BitVec 32)
    (memory : Memory 32) :
    (handleDataUntilError turns sock rx tx memory).OnlyCalls (Transfers sock) := by
  refine onlyCalls_loop (fun memory => ?_) turns memory
  have hread := Socket.onlyCalls_socketRead turns sock rx 1 (memory.store rx [0])
  refine onlyCalls_bind (OnlyCalls.embed (g := Call.socket) (hread.mono ?_)) fun r => ?_
  · rintro c ⟨len, rfl⟩
    rfl
  · obtain ⟨ok, memory'⟩ := r
    dsimp only
    split
    · refine onlyCalls_perform trivial fun answer => ?_
      have hwrite := Socket.onlyCalls_socketWrite turns sock tx 1 (memory'.store tx [answer])
      refine onlyCalls_bind (OnlyCalls.embed (g := Call.socket) (hwrite.mono ?_)) fun ok => ?_
      · rintro c ⟨bytes, rfl⟩
        rfl
      · split <;> exact onlyCalls_pure _
    · exact onlyCalls_pure _

/-- What the task does until it has a connection or has failed to get one. -/
def connecting (turns : Nat) : Program Answer Int := do
  let _ ← awaitNetwork
  connectToServer turns

theorem onlyCalls_connecting (turns : Nat) : (connecting turns).OnlyCalls Idle :=
  onlyCalls_bind onlyCalls_awaitNetwork fun _ => onlyCalls_connectToServer turns

theorem always_connecting (turns : Nat) :
    (connecting turns).Always fun t => Held (socketTrace t) := by
  refine always_bind (always_awaitNetwork.mono fun t ht => ?_) ?_
  · rw [ht]
    exact ⟨none, rfl⟩
  · intro t₁ _ hreturns
    have hnone := ensures_awaitNetwork t₁ _ hreturns
    refine (always_connectToServer turns).mono fun t₂ ht₂ => ?_
    rwa [socketTrace_append, hnone, List.nil_append]

theorem ensures_connecting (turns : Nat) :
    (connecting turns).Ensures fun t sock =>
      created (socketTrace t) = closed (socketTrace t) ++ (opened sock).toList := by
  apply ensures_bind
  intro t₁ _ hreturns
  have hnone := ensures_awaitNetwork t₁ _ hreturns
  refine (ensures_connectToServer turns).mono fun t₂ sock ht₂ => ?_
  rwa [socketTrace_append, hnone, List.nil_append]

/-- The rest of a turn, with the result of `_connect_to_server`. -/
def relaying (turns : Nat) (rx tx : BitVec 32) (memory : Memory 32) (sock : Int) :
    Program Answer (Memory 32 ⊕ Empty) :=
  if sock < 0 then return .inl memory
  else do
    let memory ← handleDataUntilError turns sock.toNat rx tx memory
    let _ ← perform (Call.socket (.close sock.toNat))
    return .inl memory

theorem managerTurn_eq (turns : Nat) (rx tx : BitVec 32) (memory : Memory 32) :
    managerTurn turns rx tx memory = connecting turns >>= relaying turns rx tx memory :=
  (bind_bind _ _ _).symm

theorem always_managerTurn (turns : Nat) (rx tx : BitVec 32) (memory : Memory 32) :
    (managerTurn turns rx tx memory).Always Sound := by
  rw [managerTurn_eq]
  have hidle (t : Trace Answer) (h : (connecting turns).Begins t) : ∀ e ∈ t, Idle e.call :=
    (onlyCalls_connecting turns).always t h
  have hsound (t : Trace Answer) (h : (connecting turns).Begins t) : Sound t :=
    sound_of_idle (hidle t h) (always_connecting turns t h)
  refine always_bind hsound ?_
  intro t sock hreturns
  have hbegins := begins_of_returns hreturns
  have hopen : created (socketTrace t) = closed (socketTrace t) ++ (opened sock).toList :=
    ensures_connecting turns t sock hreturns
  have hbefore : ∀ p, p <+: t → Held (socketTrace p) :=
    (always_connecting turns).ensures t sock hreturns
  unfold relaying
  split
  case isTrue =>
      apply always_pure
      rw [List.append_nil]
      exact hsound t hbegins
  case isFalse hsock =>
      rw [opened, if_neg hsock] at hopen
      have hrelay := always_handleDataUntilError turns sock.toNat rx tx memory
      have honly := (onlyCalls_handleDataUntilError turns sock.toNat rx tx memory).always
      have hconnected (r : Trace Answer)
          (h : (handleDataUntilError turns sock.toNat rx tx memory).Begins r) : Sound (t ++ r) :=
        sound_relaying (hidle t hbegins) hbefore hopen (honly r h) (hrelay r h)
      refine always_bind hconnected ?_
      intro r memory' hreturns'
      have hr := begins_of_returns hreturns'
      have hstill : created (socketTrace (t ++ r)) =
          closed (socketTrace (t ++ r)) ++ [sock.toNat] := by
        obtain ⟨hcreated, hclosed⟩ := created_of_transfers (honly r hr)
        rw [socketTrace_append, created_append, closed_append, hcreated, hclosed,
          List.append_nil, List.append_nil]
        exact hopen
      refine always_perform ?_ fun _ => always_pure ?_
      · rw [List.append_nil]
        exact hconnected r hr
      · rw [← List.append_assoc]
        exact (hconnected r hr).close hstill

/-- Every turn closes what it has opened. -/
theorem ensures_managerTurn (turns : Nat) (rx tx : BitVec 32) (memory : Memory 32) :
    (managerTurn turns rx tx memory).Ensures fun t _ =>
      created (socketTrace t) = closed (socketTrace t) := by
  rw [managerTurn_eq]
  apply ensures_bind
  intro t sock hreturns
  have hopen : created (socketTrace t) = closed (socketTrace t) ++ (opened sock).toList :=
    ensures_connecting turns t sock hreturns
  unfold relaying
  split
  case isTrue hsock =>
      apply ensures_pure
      rw [opened, if_pos hsock] at hopen
      rw [List.append_nil, hopen]
      exact List.append_nil _
  case isFalse hsock =>
      rw [opened, if_neg hsock] at hopen
      apply ensures_bind
      intro r memory' hreturns'
      obtain ⟨hcreated, hclosed⟩ := created_of_transfers
        ((onlyCalls_handleDataUntilError turns sock.toNat rx tx memory).ensures r _ hreturns')
      refine ensures_perform fun _ => ensures_pure ?_
      rw [socketTrace_append, socketTrace_append, created_append, created_append, closed_append,
        closed_append, hcreated, hclosed, hopen]
      simp
      rfl

/-- At every moment of the task's run, which never ends: at most one descriptor is open and each
one is closed once, in order; all transfers are made on the open one; and the bytes received on
it are exchanged with the Game Boy and its answers sent back, in order, none lost or made up,
and none received before the one before it has been answered. -/
theorem connections_relayed {turns : Nat} {rx tx : BitVec 32} {memory : Memory 32}
    (h : (taskSocketManager turns rx tx memory).Begins t) : Sound t := by
  revert t
  show (taskSocketManager turns rx tx memory).Always Sound
  have hnil : Sound [] := sound_of_idle (by simp) ⟨none, rfl⟩
  refine always_loop (I := fun _ => True) (Q := fun _ => Sound) (fun _ _ => hnil)
    (fun memory _ => always_managerTurn turns rx tx memory) ?_ turns memory trivial
  intro memory _ t r hreturns memory' _
  have hturn := ensures_managerTurn turns rx tx memory t r hreturns
  refine ⟨trivial, fun t' ht' => ht'.append ?_ hturn⟩
  exact (always_managerTurn turns rx tx memory).ensures t r hreturns

/-- The task connects and is given the descriptor 3. -/
def connected3 : Trace Answer :=
  let address : Socket.Address := ⟨Socket.afInet, Socket.sockStream, Socket.ipprotoTcp, [1]⟩
  [⟨.storageGetString "server_host", (none, 0)⟩, ⟨.storageGetString "server_port", (none, 0)⟩,
    ⟨.socket (.getaddrinfo "192.168.0.115" 1989 Socket.afInet Socket.sockStream
      Socket.ipprotoTcp), some [address]⟩,
    ⟨.socket (.socket Socket.afInet Socket.sockStream Socket.ipprotoTcp), .ok 3⟩,
    ⟨.socket (.setNodelay 3), .ok ()⟩, ⟨.socket (.getFlags 3), .ok 2⟩,
    ⟨.socket (.setFlags 3 0x4002), .ok ()⟩, ⟨.socket (.connect 3 [1]), .ok ()⟩,
    ⟨.socket (.getFlags 3), .ok 0x4002⟩, ⟨.socket (.setFlags 3 2), .ok ()⟩,
    ⟨.socket .freeaddrinfo, ()⟩]

/-- A connection that is lost after a byte, and the next one under the same descriptor, on
which a byte has been exchanged and the answer is still to be sent. -/
def reconnected : Trace Answer :=
  [⟨.wifiIsConnected, false⟩, ⟨.xTaskNotifyWait, ()⟩] ++ connected3 ++
    [⟨.socket (.recv 3 1), .ok ⟨[0x29], by decide⟩⟩, ⟨.spiExchangeByte 0x29, 0x55⟩,
      ⟨.socket (.send 3 [0x55]), .ok ⟨1, by decide⟩⟩,
      ⟨.socket (.recv 3 1), .error (.other 104)⟩, ⟨.socket (.close 3), ()⟩,
      ⟨.wifiIsConnected, true⟩] ++ connected3 ++
    [⟨.socket (.recv 3 1), .error .eintr⟩, ⟨.socket (.recv 3 1), .ok ⟨[0x2F], by decide⟩⟩,
      ⟨.spiExchangeByte 0x2F, 0x39⟩]

theorem connections_relayed_reconnected :
    exchanged reconnected = [(0x29, 0x55), (0x2F, 0x39)] ∧
      created (socketTrace reconnected) = [3, 3] ∧ closed (socketTrace reconnected) = [3] ∧
      Sound reconnected := by
  have hbegins : (taskSocketManager 3 0x100 0x101 fun _ => 0).Begins reconnected :=
    begins_of_beginsWith (by decide +kernel)
  exact ⟨by decide, by decide, by decide, connections_relayed hbegins⟩

end GbPlay.Esp.SocketManager
