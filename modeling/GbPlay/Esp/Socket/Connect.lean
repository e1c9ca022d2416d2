import GbPlay.Esp.Socket.Model

/-!
# The descriptors of `socket_connect`

What is opened, closed and handed over in a call of `socket_connect`, whatever
the operating system answers.
-/

namespace GbPlay.Esp.Socket

open GbPlay.Library.Calls GbPlay.Library.Calls.Program

/-! ## Descriptors in a trace -/

/-- The descriptor that a call of `socket` has created. -/
def createdBy (e : Event Answer) : Option Fd :=
  match e with
  | ⟨.socket _ _ _, .ok sock⟩ => some sock
  | _ => none

def closedBy (e : Event Answer) : Option Fd :=
  match e with
  | ⟨.close sock, _⟩ => some sock
  | _ => none

def created (t : Trace Answer) : List Fd := t.filterMap createdBy

def closed (t : Trace Answer) : List Fd := t.filterMap closedBy

/-- No call opens or closes a descriptor. -/
def Quiet (t : Trace Answer) : Prop :=
  ∀ e ∈ t, match e.call with
    | .socket _ _ _ | .close _ => False
    | _ => True

/-- The connection is established: at once, or when `poll` has reported the socket
writable and it has no error. -/
def Connected (sock : Fd) (address : List UInt8) (t : Trace Answer) : Prop :=
  ⟨.connect sock address, .ok ()⟩ ∈ t ∨
    ⟨.connect sock address, .error .einprogress⟩ ∈ t ∧
      ∃ timeoutMs polled n, polled.rc = .ok (n + 1) ∧
        [⟨.poll sock timeoutMs, polled⟩, ⟨.getSocketError sock, .ok none⟩] <:+: t

/-- The last mode that has been set is the blocking one. -/
def Blocking (sock : Fd) (t : Trace Answer) : Prop :=
  ∃ before flags after, t = before ++ ⟨.setFlags sock flags, .ok ()⟩ :: after ∧
    flags &&& oNonblock = 0 ∧ ∀ e ∈ after, ∀ flags, e.call ≠ .setFlags sock flags

/-- The descriptor is open, connected and in blocking mode, and no address has been tried
after its own. -/
def Usable (t : Trace Answer) (sock : Fd) : Prop :=
  ∃ before family socktype protocol after address,
    t = before ++ ⟨.socket family socktype protocol, .ok sock⟩ :: after ∧
      Quiet after ∧ Connected sock address after ∧ Blocking sock after

/-- At any time the descriptors closed are the first ones created; in the end only the one
that is returned has not been closed. -/
structure Accounted (t : Trace Answer) (result : Option Fd) : Prop where
  inOrder : ∀ p, p <+: t → closed p <+: created p
  rest : created t = closed t ++ result.toList

/-! ## What the helpers ensure -/

variable {sock : Fd} {t t' : Trace Answer} {result : Option Fd}

theorem Quiet.append (h : Quiet t) (h' : Quiet t') : Quiet (t ++ t') := by
  intro e he
  rcases List.mem_append.mp he with he | he
  · exact h e he
  · exact h' e he

theorem Quiet.by_eq_none (h : Quiet t) {e : Event Answer} (he : e ∈ t) :
    createdBy e = none ∧ closedBy e = none := by
  have hcall := h e he
  obtain ⟨c, r⟩ := e
  cases c <;> first | exact ⟨rfl, rfl⟩ | exact absurd hcall id

theorem Quiet.created_eq_nil (h : Quiet t) : created t = [] :=
  List.filterMap_eq_nil_iff.mpr fun _ he => (h.by_eq_none he).1

theorem Quiet.closed_eq_nil (h : Quiet t) : closed t = [] :=
  List.filterMap_eq_nil_iff.mpr fun _ he => (h.by_eq_none he).2

theorem ensures_setSocketIsBlocking (sock : Fd) (isBlocking : Bool) :
    (setSocketIsBlocking sock isBlocking).Ensures fun t ok =>
      Quiet t ∧ (isBlocking = true → ok = true → Blocking sock t) := by
  unfold setSocketIsBlocking
  apply ensures_perform
  intro flags
  cases flags with
  | error e =>
      apply ensures_pure
      simp [Quiet]
  | ok flags =>
      apply ensures_perform
      intro r
      cases r with
      | error e =>
          apply ensures_pure
          simp [Quiet]
      | ok _ =>
          apply ensures_pure
          refine ⟨by simp [Quiet], fun hblocking _ => ?_⟩
          refine ⟨[⟨.getFlags sock, .ok flags⟩], flags &&& ~~~oNonblock, [], ?_, ?_, by simp⟩
          · rw [hblocking]
            rfl
          · rw [BitVec.and_assoc]
            simp

/-- The last two calls have found the socket connected. -/
def FoundConnected (sock : Fd) (t : Trace Answer) : Prop :=
  ∃ before timeoutMs polled n, polled.rc = .ok (n + 1) ∧
    t = before ++ [⟨.poll sock timeoutMs, polled⟩, ⟨.getSocketError sock, .ok none⟩]

theorem FoundConnected.append (h : FoundConnected sock t) (before : Trace Answer) :
    FoundConnected sock (before ++ t) := by
  obtain ⟨before', timeoutMs, polled, n, hrc, rfl⟩ := h
  exact ⟨before ++ before', timeoutMs, polled, n, hrc, (List.append_assoc ..).symm⟩

theorem ensures_waitTurn (sock : Fd) (timeoutMs cutoffTime : Int) :
    (waitTurn sock timeoutMs cutoffTime).Ensures fun t r =>
      Quiet t ∧ (r = .inr true → FoundConnected sock t) := by
  unfold waitTurn
  apply ensures_perform
  intro now
  split
  · apply ensures_pure
    simp [Quiet]
  · apply ensures_perform
    intro polled
    obtain ⟨rc, time⟩ := polled
    rcases rc with errno | _ | n
    · cases errno <;>
      · apply ensures_pure
        simp [Quiet]
    · apply ensures_pure
      simp [Quiet]
    · unfold getSocketError
      apply ensures_bind
      apply ensures_perform
      intro r
      rcases r with errno | _ | sockError
      · apply ensures_pure
        apply ensures_pure
        simp [Quiet]
      · apply ensures_pure
        apply ensures_pure
        refine ⟨by simp [Quiet], fun _ => ?_⟩
        exact ⟨[⟨.getTime, now⟩], timeoutMs, _, n, rfl, rfl⟩
      · apply ensures_pure
        apply ensures_pure
        simp [Quiet]

theorem ensures_waitForSocketConnect (turns : Nat) (sock : Fd) (timeoutMs : Int) :
    (waitForSocketConnect turns sock timeoutMs).Ensures fun t ok =>
      Quiet t ∧ (ok = true → FoundConnected sock t) := by
  unfold waitForSocketConnect
  apply ensures_perform
  intro now
  have hloop := ensures_loop (I := fun _ => True)
    (Q := fun (_ : Unit) t ok => Quiet t ∧ (ok = true → FoundConnected sock t))
    (fun _ _ => (ensures_waitTurn sock timeoutMs (now + toInt32 (timeoutMs * 1000))).mono ?_)
    turns () trivial
  · refine hloop.mono fun t ok h => ⟨?_, fun hok => (h.2 hok).append [_]⟩
    exact Quiet.append (t := [_]) (by simp [Quiet]) h.1
  · rintro t (_ | ok) ⟨hquiet, hfound⟩
    · exact ⟨trivial, fun t' ok h => ⟨hquiet.append h.1, fun hok => (h.2 hok).append t⟩⟩
    · exact ⟨hquiet, fun hok => hfound (by rw [hok])⟩

theorem ensures_startConnect (turns : Nat) (sock : Fd) (address : Address) (timeoutMs : Int) :
    (startConnect turns sock address timeoutMs).Ensures fun t ok =>
      Quiet t ∧ (ok = true → Connected sock address.aiAddr t) := by
  unfold startConnect
  apply ensures_perform
  intro r
  rcases r with errno | _
  · cases errno
    case einprogress =>
        refine (ensures_waitForSocketConnect turns sock timeoutMs).mono fun t ok h => ⟨?_, ?_⟩
        · exact Quiet.append (t := [_]) (by simp [Quiet]) h.1
        · intro hok
          obtain ⟨before, timeoutMs, polled, n, hrc, rfl⟩ := h.2 hok
          refine Or.inr ⟨List.mem_cons_self, timeoutMs, polled, n, hrc, ?_⟩
          exact List.infix_cons (List.suffix_append before _).isInfix
    all_goals
      apply ensures_pure
      simp [Quiet]
  · apply ensures_pure
    exact ⟨by simp [Quiet], fun _ => Or.inl List.mem_cons_self⟩

theorem Connected.append {address : List UInt8} (h : Connected sock address t)
    (before after : Trace Answer) : Connected sock address (before ++ t ++ after) := by
  rcases h with hconnect | ⟨hconnect, timeoutMs, polled, n, hrc, hinfix⟩
  · left
    simp [hconnect]
  · refine Or.inr ⟨by simp [hconnect], timeoutMs, polled, n, hrc, ?_⟩
    exact hinfix.trans ⟨before, after, rfl⟩

theorem Blocking.append (h : Blocking sock t) (before after : Trace Answer)
    (hafter : ∀ e ∈ after, ∀ flags, e.call ≠ .setFlags sock flags) :
    Blocking sock (before ++ t ++ after) := by
  obtain ⟨before', flags, after', rfl, hflags, hlast⟩ := h
  refine ⟨before ++ before', flags, after' ++ after, by simp, hflags, fun e he => ?_⟩
  rcases List.mem_append.mp he with he | he
  · exact hlast e he
  · exact hafter e he

theorem ensures_connectSocket (turns : Nat) (sock : Fd) (address : Address) (timeoutMs : Int) :
    (connectSocket turns sock address timeoutMs).Ensures fun t ok =>
      Quiet t ∧ (ok = true → Connected sock address.aiAddr t ∧ Blocking sock t) := by
  unfold connectSocket
  apply ensures_bind
  refine (ensures_setSocketIsBlocking sock false).mono fun t₁ switched h₁ => ?_
  split
  · apply ensures_bind
    refine (ensures_startConnect turns sock address timeoutMs).mono fun t₂ success h₂ => ?_
    apply ensures_bind
    refine (ensures_setSocketIsBlocking sock true).mono fun t₃ restored h₃ => ?_
    apply ensures_pure
    rw [List.append_nil, ← List.append_assoc]
    refine ⟨(h₁.1.append h₂.1).append h₃.1, fun hok => ?_⟩
    rw [Bool.and_eq_true] at hok
    refine ⟨(h₂.2 hok.1).append t₁ t₃, ?_⟩
    have hblocking := (h₃.2 rfl hok.2).append (t₁ ++ t₂) [] (by simp)
    rwa [List.append_nil] at hblocking
  · apply ensures_pure
    simpa using h₁.1

/-! ## Accounts of attempts -/

theorem created_append (t t' : Trace Answer) : created (t ++ t') = created t ++ created t' :=
  List.filterMap_append

theorem closed_append (t t' : Trace Answer) : closed (t ++ t') = closed t ++ closed t' :=
  List.filterMap_append

/-- Nothing has been closed, and what has been created is handed over. -/
theorem accounted_of_closed_eq_nil (hclosed : closed t = [])
    (hcreated : created t = result.toList) : Accounted t result := by
  constructor
  · intro p hp
    have hnil : closed p = [] := by
      have hprefix : closed p <+: closed t := hp.filterMap closedBy
      rwa [hclosed, List.prefix_nil] at hprefix
    rw [hnil]
    exact List.nil_prefix
  · rw [hclosed, hcreated, List.nil_append]

/-- The descriptors closed are the first ones created, in one part of a trace and then in
the other. -/
theorem inOrder_append (h : ∀ p, p <+: t → closed p <+: created p)
    (h' : ∀ q, q <+: t' → closed (t ++ q) <+: created (t ++ q)) :
    ∀ p, p <+: t ++ t' → closed p <+: created p := by
  intro p hp
  rcases List.prefix_or_prefix_of_prefix hp (List.prefix_append t t') with hp' | ⟨q, rfl⟩
  · exact h p hp'
  · rw [List.prefix_append_right_inj] at hp
    exact h' q hp

/-- What follows an attempt that has closed what it opened. -/
theorem Accounted.append (h : Accounted t none) (h' : Accounted t' result) :
    Accounted (t ++ t') result := by
  have hclosed : created t = closed t := by simpa using h.rest
  constructor
  · refine inOrder_append h.inOrder fun q hq => ?_
    rw [created_append, closed_append, hclosed, List.prefix_append_right_inj]
    exact h'.inOrder q hq
  · rw [created_append, closed_append, hclosed, h'.rest, List.append_assoc]

theorem Accounted.append_quiet (h : Accounted t result) (hquiet : Quiet t') :
    Accounted (t ++ t') result := by
  constructor
  · refine inOrder_append h.inOrder fun q hq => ?_
    have hquiet' : Quiet q := fun e he => hquiet e (hq.subset he)
    rw [created_append, closed_append, hquiet'.created_eq_nil, hquiet'.closed_eq_nil,
      List.append_nil, List.append_nil]
    exact h.inOrder t List.prefix_rfl
  · rw [created_append, closed_append, hquiet.created_eq_nil, hquiet.closed_eq_nil,
      List.append_nil, List.append_nil, h.rest]

/-- A descriptor that is closed by the last call. -/
theorem Accounted.close (h : Accounted t (some sock)) (hnone : closed t = []) :
    Accounted (t ++ [⟨.close sock, ()⟩]) none := by
  have hcreated : created (t ++ [⟨.close sock, ()⟩]) = [sock] := by
    rw [created_append, h.rest, hnone]
    rfl
  have hclosed : closed (t ++ [⟨.close sock, ()⟩]) = [sock] := by
    rw [closed_append, hnone]
    rfl
  constructor
  · intro p hp
    rcases List.prefix_concat_iff.mp hp with rfl | hp'
    · exact ⟨[], by rw [List.append_nil, hclosed, hcreated]⟩
    · exact h.inOrder p hp'
  · rw [hcreated, hclosed]
    rfl

/-! ## `socket_connect` -/

/-- After the creation of a descriptor that is closed again. -/
theorem ensures_closeSocket {family socktype protocol : Int} (hquiet : Quiet t) :
    (closeSocket sock).Ensures fun t' result =>
      Accounted (⟨.socket family socktype protocol, .ok sock⟩ :: (t ++ t')) result ∧
        ∀ sock', result = some sock' →
          Usable (⟨.socket family socktype protocol, .ok sock⟩ :: (t ++ t')) sock' := by
  have hclosed : closed (⟨.socket family socktype protocol, .ok sock⟩ :: t) = [] :=
    hquiet.closed_eq_nil
  have hcreated : created (⟨.socket family socktype protocol, .ok sock⟩ :: t) = [sock] :=
    congrArg (sock :: ·) hquiet.created_eq_nil
  unfold closeSocket
  apply ensures_perform
  intro _
  apply ensures_pure
  have hopen : Accounted _ (some sock) := accounted_of_closed_eq_nil hclosed hcreated
  exact ⟨hopen.close hclosed, by simp⟩

theorem ensures_createSocket (turns : Nat) (address : Address) (timeoutMs : Int) :
    (createSocket turns address timeoutMs).Ensures fun t result =>
      Accounted t result ∧ ∀ sock, result = some sock → Usable t sock := by
  unfold createSocket
  split
  · apply ensures_perform
    intro r
    rcases r with errno | sock
    · apply ensures_pure
      exact ⟨accounted_of_closed_eq_nil rfl rfl, by simp⟩
    · apply ensures_perform
      intro r
      rcases r with errno | _
      · exact ensures_closeSocket (t := [_]) (by simp [Quiet])
      · apply ensures_bind
        refine (ensures_connectSocket turns sock address timeoutMs).mono fun t ok h => ?_
        have hquiet : Quiet (⟨.setNodelay sock, .ok ()⟩ :: t) :=
          Quiet.append (t := [_]) (by simp [Quiet]) h.1
        split
        case isTrue hok =>
            obtain ⟨hconnected, hblocking⟩ := h.2 hok
            apply ensures_pure
            rw [List.append_nil]
            refine ⟨accounted_of_closed_eq_nil hquiet.closed_eq_nil
              (congrArg (sock :: ·) hquiet.created_eq_nil), fun sock' hsock => ?_⟩
            obtain rfl := Option.some.inj hsock
            refine ⟨[], _, _, _, _, address.aiAddr, rfl, hquiet, ?_, ?_⟩
            · simpa using hconnected.append [⟨.setNodelay sock, .ok ()⟩] []
            · simpa using hblocking.append [⟨.setNodelay sock, .ok ()⟩] [] (by simp)
        case isFalse => exact ensures_closeSocket hquiet
  · exact ensures_stuck

theorem Usable.append (h : Usable t sock) (before after : Trace Answer)
    (hquiet : Quiet after) (hmode : ∀ e ∈ after, ∀ flags, e.call ≠ .setFlags sock flags) :
    Usable (before ++ t ++ after) sock := by
  obtain ⟨before', family, socktype, protocol, after', address, rfl, hafter, hconnected,
    hblocking⟩ := h
  refine ⟨before ++ before', family, socktype, protocol, after' ++ after, address, by simp,
    hafter.append hquiet, ?_, ?_⟩
  · exact hconnected.append [] after
  · exact hblocking.append [] after hmode

theorem ensures_connectFirst (turns : Nat) (timeoutMs : Int) (addresses : List Address) :
    (connectFirst turns timeoutMs addresses).Ensures fun t result =>
      Accounted t result ∧ ∀ sock, result = some sock → Usable t sock := by
  induction addresses with
  | nil =>
      apply ensures_pure
      exact ⟨accounted_of_closed_eq_nil rfl rfl, by simp⟩
  | cons a rest ih =>
      apply ensures_bind
      refine (ensures_createSocket turns a timeoutMs).mono fun t result h => ?_
      rcases result with _ | sock
      · refine ih.mono fun t' result h' => ⟨h.1.append h'.1, fun sock hsock => ?_⟩
        simpa using (h'.2 sock hsock).append t [] (by simp [Quiet]) (by simp)
      · apply ensures_pure
        rwa [List.append_nil]

/-- Every descriptor that a call of `socket_connect` creates has been closed once when it
returns, except the one it returns, which is connected and in blocking mode. -/
theorem socketConnect_accounts {turns : Nat} {address : String} {port : UInt16}
    {timeoutMs : Int} (h : (socketConnect turns address port timeoutMs).Returns t result) :
    Accounted t result ∧ ∀ sock, result = some sock → Usable t sock := by
  revert t result
  show (socketConnect turns address port timeoutMs).Ensures fun t result =>
    Accounted t result ∧ ∀ sock, result = some sock → Usable t sock
  unfold socketConnect
  apply ensures_perform
  intro r
  rcases r with _ | addressInfo
  · apply ensures_pure
    exact ⟨accounted_of_closed_eq_nil rfl rfl, by simp⟩
  · apply ensures_bind
    refine (ensures_connectFirst turns timeoutMs addressInfo).mono fun t result h => ?_
    apply ensures_perform
    intro _
    apply ensures_pure
    have hbefore : Accounted [⟨.getaddrinfo address port afInet sockStream ipprotoTcp,
        some addressInfo⟩] none := accounted_of_closed_eq_nil rfl rfl
    constructor
    · exact hbefore.append (h.1.append_quiet (by simp [Quiet]))
    · intro sock hsock
      simpa using (h.2 sock hsock).append [⟨.getaddrinfo _ _ _ _ _, some addressInfo⟩]
        [⟨.freeaddrinfo, ()⟩] (by simp [Quiet]) (by simp)

/-- Two addresses: the first refuses the connection, the second is connected to after the
wait has been interrupted. -/
def secondAddress : Trace Answer :=
  let address (n : UInt8) : Address := ⟨afInet, sockStream, ipprotoTcp, [n]⟩
  [⟨.getaddrinfo "gbplay" 1989 afInet sockStream ipprotoTcp, some [address 1, address 2]⟩,
    ⟨.socket afInet sockStream ipprotoTcp, .ok 3⟩, ⟨.setNodelay 3, .ok ()⟩,
    ⟨.getFlags 3, .ok 2⟩, ⟨.setFlags 3 0x4002, .ok ()⟩, ⟨.connect 3 [1], .error (.other 111)⟩,
    ⟨.getFlags 3, .ok 0x4002⟩, ⟨.setFlags 3 2, .ok ()⟩, ⟨.close 3, ()⟩,
    ⟨.socket afInet sockStream ipprotoTcp, .ok 3⟩, ⟨.setNodelay 3, .ok ()⟩,
    ⟨.getFlags 3, .ok 2⟩, ⟨.setFlags 3 0x4002, .ok ()⟩, ⟨.connect 3 [2], .error .einprogress⟩,
    ⟨.getTime, (0 : Int)⟩, ⟨.getTime, (10 : Int)⟩, ⟨.poll 3 10000, ⟨.error .eintr, 500⟩⟩,
    ⟨.getTime, (510 : Int)⟩, ⟨.poll 3 10000, ⟨.ok 1, 900⟩⟩, ⟨.getSocketError 3, .ok none⟩,
    ⟨.getFlags 3, .ok 0x4002⟩, ⟨.setFlags 3 2, .ok ()⟩, ⟨.freeaddrinfo, ()⟩]

theorem socketConnect_accounts_second :
    (socketConnect 2 "gbplay" 1989 10000).Returns secondAddress (some 3) ∧
      Accounted secondAddress (some 3) ∧ Usable secondAddress 3 := by
  have hreturns : (socketConnect 2 "gbplay" 1989 10000).Returns secondAddress (some 3) :=
    returns_of_replay rfl
  have haccounts := socketConnect_accounts hreturns
  exact ⟨hreturns, haccounts.1, haccounts.2 3 rfl⟩

end GbPlay.Esp.Socket
