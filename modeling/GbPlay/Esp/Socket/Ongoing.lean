import GbPlay.Esp.Socket.Connect
import GbPlay.Esp.Socket.Transfer
import GbPlay.Library.Ongoing

/-!
# Sockets at every moment

What the functions of `socket.c` have done when they have not returned yet, and may never.
-/

namespace GbPlay.Esp.Socket

open GbPlay.Library GbPlay.Library.Calls GbPlay.Library.Calls.Program

/-- Neither opens nor closes a descriptor nor transfers anything. -/
def Prepares : Call → Prop
  | .socket _ _ _ | .close _ | .recv _ _ | .send _ _ => False
  | _ => True

/-- Transfers nothing. -/
def Silent : Call → Prop
  | .recv _ _ | .send _ _ => False
  | _ => True

/-- The descriptors are closed in the order in which they are created, each before the next
one is created. -/
def Held (t : Trace Answer) : Prop := ∃ o : Option Fd, created t = closed t ++ o.toList

variable {t t' : Trace Answer} {sock : Fd}

theorem quiet_of_prepares (h : ∀ e ∈ t, Prepares e.call) : Quiet t := by
  intro e he
  have hcall := h e he
  obtain ⟨c, r⟩ := e
  cases c <;> trivial

theorem Held.append (h : created t = closed t) (h' : Held t') : Held (t ++ t') := by
  obtain ⟨o, ho⟩ := h'
  exact ⟨o, by rw [created_append, closed_append, h, ho, List.append_assoc]⟩

/-! ## Connecting -/

theorem onlyCalls_setSocketIsBlocking (sock : Fd) (isBlocking : Bool) :
    (setSocketIsBlocking sock isBlocking).OnlyCalls Prepares := by
  refine onlyCalls_perform trivial fun r => ?_
  cases r with
  | error e => exact onlyCalls_pure _
  | ok flags =>
      refine onlyCalls_perform trivial fun r => ?_
      cases r <;> exact onlyCalls_pure _

theorem onlyCalls_getSocketError (sock : Fd) : (getSocketError sock).OnlyCalls Prepares := by
  refine onlyCalls_perform trivial fun r => ?_
  cases r <;> exact onlyCalls_pure _

theorem onlyCalls_waitTurn (sock : Fd) (timeoutMs cutoffTime : Int) :
    (waitTurn sock timeoutMs cutoffTime).OnlyCalls Prepares := by
  refine onlyCalls_perform trivial fun now => ?_
  split
  · exact onlyCalls_pure _
  · refine onlyCalls_perform trivial fun polled => ?_
    obtain ⟨rc, time⟩ := polled
    rcases rc with errno | _ | n
    · cases errno <;> exact onlyCalls_pure _
    · exact onlyCalls_pure _
    · refine onlyCalls_bind (onlyCalls_getSocketError sock) fun sockError => ?_
      cases sockError <;> exact onlyCalls_pure _

theorem onlyCalls_startConnect (turns : Nat) (sock : Fd) (address : Address) (timeoutMs : Int) :
    (startConnect turns sock address timeoutMs).OnlyCalls Prepares := by
  refine onlyCalls_perform trivial fun r => ?_
  rcases r with errno | _
  · cases errno
    case einprogress =>
        refine onlyCalls_perform trivial fun now => ?_
        exact onlyCalls_loop (fun _ => onlyCalls_waitTurn _ _ _) _ _
    all_goals exact onlyCalls_pure _
  · exact onlyCalls_pure _

theorem onlyCalls_connectSocket (turns : Nat) (sock : Fd) (address : Address) (timeoutMs : Int) :
    (connectSocket turns sock address timeoutMs).OnlyCalls Prepares := by
  refine onlyCalls_bind (onlyCalls_setSocketIsBlocking _ _) fun switched => ?_
  split
  · refine onlyCalls_bind (onlyCalls_startConnect _ _ _ _) fun success => ?_
    exact onlyCalls_bind (onlyCalls_setSocketIsBlocking _ _) fun restored => onlyCalls_pure _
  · exact onlyCalls_pure _

theorem silent_of_prepares {c : Call} (h : Prepares c) : Silent c := by
  cases c <;> trivial

theorem onlyCalls_closeSocket (sock : Fd) : (closeSocket sock).OnlyCalls Silent :=
  onlyCalls_perform trivial fun _ => onlyCalls_pure _

theorem onlyCalls_createSocket (turns : Nat) (address : Address) (timeoutMs : Int) :
    (createSocket turns address timeoutMs).OnlyCalls Silent := by
  unfold createSocket
  split
  · refine onlyCalls_perform trivial fun r => ?_
    rcases r with errno | sock
    · exact onlyCalls_pure _
    · refine onlyCalls_perform trivial fun r => ?_
      rcases r with errno | _
      · exact onlyCalls_closeSocket sock
      · have hconnect := onlyCalls_connectSocket turns sock address timeoutMs
        refine onlyCalls_bind (hconnect.mono fun _ => silent_of_prepares) fun connected => ?_
        split
        · exact onlyCalls_pure _
        · exact onlyCalls_closeSocket sock
  · trivial

theorem onlyCalls_connectFirst (turns : Nat) (timeoutMs : Int) (addresses : List Address) :
    (connectFirst turns timeoutMs addresses).OnlyCalls Silent := by
  induction addresses with
  | nil => exact onlyCalls_pure _
  | cons a rest ih =>
      refine onlyCalls_bind (onlyCalls_createSocket _ _ _) fun result => ?_
      cases result with
      | none => exact ih
      | some sock => exact onlyCalls_pure _

/-- While it connects, the socket transfers nothing. -/
theorem onlyCalls_socketConnect (turns : Nat) (address : String) (port : UInt16)
    (timeoutMs : Int) : (socketConnect turns address port timeoutMs).OnlyCalls Silent := by
  refine onlyCalls_perform trivial fun r => ?_
  cases r with
  | none => exact onlyCalls_pure _
  | some addressInfo =>
      refine onlyCalls_bind (onlyCalls_connectFirst _ _ _) fun sock => ?_
      exact onlyCalls_perform trivial fun _ => onlyCalls_pure _

/-! ## Descriptors -/

/-- After a descriptor has been created, nothing but its close counts. -/
theorem held_cons (family socktype protocol : Int) (hquiet : Quiet t)
    (hafter : t' = [] ∨ t' = [⟨.close sock, ()⟩]) :
    Held (⟨.socket family socktype protocol, .ok sock⟩ :: (t ++ t')) := by
  have hcreated : created (⟨.socket family socktype protocol, .ok sock⟩ :: (t ++ t')) =
      sock :: created t' := by
    show sock :: created (t ++ t') = sock :: created t'
    rw [created_append, hquiet.created_eq_nil, List.nil_append]
  have hclosed : closed (⟨.socket family socktype protocol, .ok sock⟩ :: (t ++ t')) =
      closed t' := by
    show closed (t ++ t') = closed t'
    rw [closed_append, hquiet.closed_eq_nil, List.nil_append]
  rw [Held, hcreated, hclosed]
  rcases hafter with rfl | rfl
  · exact ⟨some sock, rfl⟩
  · exact ⟨none, rfl⟩

theorem held_created (family socktype protocol : Int) (hquiet : Quiet t) :
    Held (⟨.socket family socktype protocol, .ok sock⟩ :: t) := by
  have hheld : Held (⟨.socket family socktype protocol, .ok sock⟩ :: (t ++ [])) :=
    held_cons family socktype protocol hquiet (.inl rfl)
  rwa [List.append_nil] at hheld

theorem always_closeSocket (family socktype protocol : Int) (hquiet : Quiet t) :
    (closeSocket sock).Always fun t' =>
      Held (⟨.socket family socktype protocol, .ok sock⟩ :: (t ++ t')) := by
  refine always_perform (held_cons _ _ _ hquiet (.inl rfl)) fun _ => ?_
  exact always_pure (held_cons _ _ _ hquiet (.inr rfl))

theorem always_createSocket (turns : Nat) (address : Address) (timeoutMs : Int) :
    (createSocket turns address timeoutMs).Always Held := by
  have hnil : Held [] := ⟨none, rfl⟩
  unfold createSocket
  split
  case isFalse => exact always_stuck hnil
  case isTrue =>
      refine always_perform hnil fun r => ?_
      rcases r with errno | sock
      · exact always_pure ⟨none, rfl⟩
      · refine always_perform ⟨some sock, rfl⟩ fun r => ?_
        have hnodelay : Quiet [⟨.setNodelay sock, r⟩] := by simp [Quiet]
        rcases r with errno | _
        · exact always_closeSocket _ _ _ hnodelay
        · have hconnect := onlyCalls_connectSocket turns sock address timeoutMs
          refine always_bind ?_ ?_
          · refine hconnect.always.mono fun t ht => ?_
            exact held_created _ _ _ (hnodelay.append (quiet_of_prepares ht))
          · refine hconnect.ensures.mono fun t connected ht => ?_
            have hquiet : Quiet (⟨.setNodelay sock, .ok _⟩ :: t) :=
              hnodelay.append (quiet_of_prepares ht)
            split
            · apply always_pure
              rw [List.append_nil]
              exact held_created _ _ _ hquiet
            · exact always_closeSocket (t := _ :: t) _ _ _ hquiet

theorem always_connectFirst (turns : Nat) (timeoutMs : Int) (addresses : List Address) :
    (connectFirst turns timeoutMs addresses).Always Held := by
  induction addresses with
  | nil => exact always_pure ⟨none, rfl⟩
  | cons a rest ih =>
      refine always_bind (always_createSocket _ _ _) ?_
      refine (ensures_createSocket turns a timeoutMs).mono fun t result h => ?_
      have hrest : created t = closed t ++ result.toList := h.1.rest
      cases result with
      | none =>
          rw [Option.toList_none, List.append_nil] at hrest
          exact ih.mono fun t' ht' => ht'.append hrest
      | some sock =>
          apply always_pure
          rw [List.append_nil]
          exact ⟨some sock, hrest⟩

/-- At every moment of a call of `socket_connect` at most one descriptor is open. -/
theorem always_socketConnect (turns : Nat) (address : String) (port : UInt16)
    (timeoutMs : Int) : (socketConnect turns address port timeoutMs).Always Held := by
  refine always_perform ⟨none, rfl⟩ fun r => ?_
  cases r with
  | none => exact always_pure ⟨none, rfl⟩
  | some addressInfo =>
      have hlookup : created [⟨.getaddrinfo address port afInet sockStream ipprotoTcp,
          some addressInfo⟩] = closed [⟨.getaddrinfo address port afInet sockStream ipprotoTcp,
          some addressInfo⟩] := rfl
      refine always_bind ?_ ?_
      · refine (always_connectFirst turns timeoutMs addressInfo).mono fun t ht => ?_
        exact ht.append hlookup
      · refine (ensures_connectFirst turns timeoutMs addressInfo).mono fun t result h => ?_
        have hheld : Held t := ⟨result, h.1.rest⟩
        refine always_perform ?_ fun _ => always_pure ?_
        · rw [List.append_nil]
          exact hheld.append hlookup
        · obtain ⟨o, ho⟩ := hheld
          refine Held.append (t := [_]) hlookup ⟨o, ?_⟩
          show created (t ++ [_]) = closed (t ++ [_]) ++ o.toList
          rw [created_append, closed_append, ho, List.append_assoc, List.append_assoc]
          congr 1
          exact List.append_nil _

/-! ## Transfers -/

theorem onlyCalls_socketRead (turns : Nat) (sock : Fd) (outBuf bufLen : BitVec 32)
    (memory : Memory 32) : (socketRead turns sock outBuf bufLen memory).OnlyCalls
      fun c => ∃ len, c = .recv sock len := by
  refine onlyCalls_loop (fun s => ?_) turns _
  unfold readTurn
  dsimp only
  split
  · refine onlyCalls_perform ⟨_, rfl⟩ fun r => ?_
    rcases r with errno | bs
    · cases errno <;> exact onlyCalls_pure _
    · dsimp only
      split <;> exact onlyCalls_pure _
  · exact onlyCalls_pure _

theorem onlyCalls_socketWrite (turns : Nat) (sock : Fd) (buf bufLen : BitVec 32)
    (memory : Memory 32) : (socketWrite turns sock buf bufLen memory).OnlyCalls
      fun c => ∃ bytes, c = .send sock bytes := by
  refine onlyCalls_loop (fun s => ?_) turns _
  unfold writeTurn
  split
  · refine onlyCalls_perform ⟨_, rfl⟩ fun r => ?_
    rcases r with errno | n
    · cases errno <;> exact onlyCalls_pure _
    · dsimp only
      split <;> exact onlyCalls_pure _
  · exact onlyCalls_pure _

/-- An operating system that refuses every call. -/
def refusal : (c : Call) → Answer c
  | .getaddrinfo .. => none
  | .socket .. | .getFlags _ | .setNodelay _ | .setFlags _ _ | .connect _ _ => .error .etimedout
  | .getSocketError _ | .recv _ _ | .send _ _ => .error .etimedout
  | .getTime => (0 : Int)
  | .poll _ _ => ⟨.ok 0, 0⟩
  | .freeaddrinfo | .close _ => ()

/-- `socket_read` never takes more bytes from the connection than it is asked for. -/
theorem always_socketRead (turns : Nat) (sock : Fd) (outBuf bufLen : BitVec 32)
    (memory : Memory 32) : (socketRead turns sock outBuf bufLen memory).Always fun t =>
      (received sock t).length ≤ bufLen.toNat := by
  suffices hloop : (socketRead turns sock outBuf bufLen memory).Always fun t =>
      (received sock t).length ≤ (bufLen - 0).toNat by
    simpa using hloop
  refine always_loop (I := fun s => s.1.toNat ≤ bufLen.toNat)
    (Q := fun s t => (received sock t).length ≤ (bufLen - s.1).toNat)
    (fun _ _ => Nat.zero_le _) (fun s hs => ?_) (fun s hs => ?_) turns (0, memory) (Nat.zero_le _)
  · have htotal := total_readTurn sock outBuf bufLen s
    refine htotal.always ?_ ?_ refusal
    · refine (ensures_readTurn sock outBuf bufLen s.2 hs).mono fun t r h => ?_
      cases r with
      | inl next => exact h.1
      | inr result => exact h.fits
    · intro t t' h
      rw [received_append, List.length_append] at h
      omega
  · refine (ensures_readTurn sock outBuf bufLen s.2 hs).mono fun t r h s' hr => ?_
    subst hr
    obtain ⟨hfits, hnext, _⟩ := h
    rw [hnext]
    refine ⟨advance_le hs hfits, fun t' ht' => ?_⟩
    have hleft := toNat_left_advance hs hfits
    rw [received_append, List.length_append]
    omega

/-- What `socket_write` has handed over is the beginning of the buffer. -/
theorem always_socketWrite (turns : Nat) (sock : Fd) (buf bufLen : BitVec 32)
    (memory : Memory 32) : (socketWrite turns sock buf bufLen memory).Always fun t =>
      sent sock t <+: memory.load buf bufLen.toNat := by
  suffices hloop : (socketWrite turns sock buf bufLen memory).Always fun t =>
      sent sock t <+: memory.load (buf + 0) (bufLen - 0).toNat by
    simpa using hloop
  refine always_loop (I := fun bytesWritten => bytesWritten.toNat ≤ bufLen.toNat)
    (Q := fun bytesWritten t =>
      sent sock t <+: memory.load (buf + bytesWritten) (bufLen - bytesWritten).toNat)
    (fun _ _ => List.nil_prefix) (fun bytesWritten hdone => ?_) (fun bytesWritten hdone => ?_)
    turns 0 (Nat.zero_le _)
  · have htotal := total_writeTurn sock buf bufLen memory bytesWritten
    refine htotal.always ?_ ?_ refusal
    · refine (ensures_writeTurn sock buf bufLen memory hdone).mono fun t r h => ?_
      cases r with
      | inl next =>
          obtain ⟨n, hn, _, hsent, _⟩ := h
          rw [hsent, ← Memory.take_load hn]
          exact List.take_prefix _ _
      | inr ok => exact h.inOrder
    · intro t t' h
      rw [sent_append] at h
      exact (List.prefix_append _ _).trans h
  · refine (ensures_writeTurn sock buf bufLen memory hdone).mono fun t r h next hr => ?_
    subst hr
    obtain ⟨n, hn, rfl, hsent, _⟩ := h
    refine ⟨advance_le hdone hn, fun t' ht' => ?_⟩
    rw [sent_append, hsent, ← toNat_left_advance hdone hn, Memory.load_append, BitVec.add_assoc]
    exact (List.prefix_append_right_inj _).mpr ht'

end GbPlay.Esp.Socket
