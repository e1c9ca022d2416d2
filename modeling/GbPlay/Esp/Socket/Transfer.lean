import GbPlay.Esp.Socket.Model

/-!
# Reading and writing whole buffers

`socket_read` and `socket_write`, however the transfer is cut up and
interrupted.
-/

namespace GbPlay.Esp.Socket

open GbPlay.Library GbPlay.Library.Calls GbPlay.Library.Calls.Program

/-- The bytes that the call has taken over from the program. -/
def sentBy (sock : Fd) (e : Event Answer) : List UInt8 :=
  match e with
  | ⟨.send sock' bytes, .ok n⟩ => if sock' = sock then bytes.take n.val else []
  | _ => []

/-- The bytes that the call has stored for the program. -/
def receivedBy (sock : Fd) (e : Event Answer) : List UInt8 :=
  match e with
  | ⟨.recv sock' _, .ok bs⟩ => if sock' = sock then bs.val else []
  | _ => []

/-- What has been handed over to a socket. -/
def sent (sock : Fd) (t : Trace Answer) : List UInt8 := t.flatMap (sentBy sock)

def received (sock : Fd) (t : Trace Answer) : List UInt8 := t.flatMap (receivedBy sock)

/-- The call has been interrupted before it transferred anything. -/
def Interrupted (e : Event Answer) : Prop :=
  match e with
  | ⟨.send _ _, r⟩ => r = .error .eintr
  | ⟨.recv _ _, r⟩ => r = .error .eintr
  | _ => False

/-- A prefix of the buffer has been handed over, and all of it on success only. -/
structure Written (buffer sent : List UInt8) (ok : Bool) : Prop where
  inOrder : sent <+: buffer
  whole : ok = true ↔ sent = buffer

/-- The bytes received have been stored from the start of the room on and nowhere else, and
they fill it on success only. -/
structure Stored (memory : Memory 32) (room : BitVec 32) (len : Nat) (received : List UInt8)
    (ok : Bool) (memory' : Memory 32) : Prop where
  fits : received.length ≤ len
  stored : memory' = memory.store room received
  whole : ok = true ↔ received.length = len

variable {t t' : Trace Answer} {sock sock' : Fd} {buf bufLen outBuf : BitVec 32}
  {memory memory' : Memory 32} {buffer bytes more : List UInt8} {ok : Bool}

theorem sent_append (sock : Fd) (t t' : Trace Answer) :
    sent sock (t ++ t') = sent sock t ++ sent sock t' := List.flatMap_append

theorem received_append (sock : Fd) (t t' : Trace Answer) :
    received sock (t ++ t') = received sock t ++ received sock t' := List.flatMap_append

/-! ## Positions in a buffer -/

/-- What is left of a buffer, when not more than all of it is done. -/
theorem toNat_left {len done : BitVec 32} (h : done.toNat ≤ len.toNat) :
    (len - done).toNat = len.toNat - done.toNat := by
  rw [BitVec.toNat_sub_of_le h]

theorem toNat_advance {len done : BitVec 32} {n : Nat} (h : done.toNat ≤ len.toNat)
    (hn : n ≤ (len - done).toNat) :
    (done + BitVec.ofNat 32 n).toNat = done.toNat + n := by
  rw [toNat_left h] at hn
  have := len.isLt
  rw [BitVec.toNat_add, BitVec.toNat_ofNat, Nat.mod_eq_of_lt (b := 2 ^ 32) (by omega),
    Nat.mod_eq_of_lt (by omega)]

theorem left_pos {len done : BitVec 32} (h : done < len) : 0 < (len - done).toNat := by
  have hlt : done.toNat < len.toNat := h
  rw [toNat_left (Nat.le_of_lt hlt)]
  omega

theorem left_eq_zero {len done : BitVec 32} (hdone : done.toNat ≤ len.toNat) (h : ¬ done < len) :
    (len - done).toNat = 0 := by
  have hle : ¬ done.toNat < len.toNat := h
  rw [toNat_left hdone]
  omega

/-- No more than all of the buffer is done by another part of what is left. -/
theorem advance_le {len done : BitVec 32} {n : Nat} (h : done.toNat ≤ len.toNat)
    (hn : n ≤ (len - done).toNat) : (done + BitVec.ofNat 32 n).toNat ≤ len.toNat := by
  rw [toNat_advance h hn]
  rw [toNat_left h] at hn
  omega

/-- What is left after another part is done. -/
theorem toNat_left_advance {len done : BitVec 32} {n : Nat} (h : done.toNat ≤ len.toNat)
    (hn : n ≤ (len - done).toNat) :
    n + (len - (done + BitVec.ofNat 32 n)).toNat = (len - done).toNat := by
  have hadvance := toNat_advance h hn
  rw [toNat_left h] at hn ⊢
  rw [toNat_left (by omega), hadvance]
  omega

/-! ## Writing -/

theorem Written.append (h : Written buffer bytes ok) (before : List UInt8) :
    Written (before ++ buffer) (before ++ bytes) ok :=
  ⟨(List.prefix_append_right_inj before).mpr h.inOrder, by
    rw [h.whole, List.append_cancel_left_eq]⟩

theorem written_nil_of_pos {p : BitVec 32} {n : Nat} (hpos : 0 < n) :
    Written (memory.load p n) [] false := by
  refine ⟨List.nil_prefix, ?_⟩
  have hne : memory.load p n ≠ [] := by
    rw [← List.length_pos_iff, Memory.length_load]
    exact hpos
  simp [hne.symm]

theorem ensures_writeTurn (sock : Fd) (buf bufLen : BitVec 32) (memory : Memory 32)
    {bytesWritten : BitVec 32} (hdone : bytesWritten.toNat ≤ bufLen.toNat) :
    (writeTurn sock buf bufLen memory bytesWritten).Ensures fun t r =>
      match r with
      | .inl next => ∃ n, n ≤ (bufLen - bytesWritten).toNat ∧
          next = bytesWritten + BitVec.ofNat 32 n ∧
          sent sock t = memory.load (buf + bytesWritten) n ∧
          (n = 0 → ∃ e, t = [e] ∧ Interrupted e)
      | .inr ok => Written (memory.load (buf + bytesWritten) (bufLen - bytesWritten).toNat)
          (sent sock t) ok := by
  unfold writeTurn
  split
  case isTrue hleft =>
      have hpos : 0 < (bufLen - bytesWritten).toNat := left_pos hleft
      apply ensures_perform
      intro r
      rcases r with errno | ⟨n, hn⟩
      · cases errno
        case eintr =>
            apply ensures_pure
            exact ⟨0, Nat.zero_le _, by simp, rfl, fun _ => ⟨_, rfl, rfl⟩⟩
        all_goals
          apply ensures_pure
          exact written_nil_of_pos hpos
      · rw [Memory.length_load] at hn
        have hle : n ≤ (bufLen - bytesWritten).toNat := Nat.le_trans hn (Nat.min_le_left _ _)
        dsimp only
        split
        case isTrue hzero =>
            obtain rfl : n = 0 := hzero
            apply ensures_pure
            have hsent : sent sock [⟨.send sock (memory.load (buf + bytesWritten)
                (bufLen - bytesWritten).toNat), .ok ⟨0, Nat.zero_le _⟩⟩] = [] := by
              simp [sent, sentBy]
            rw [hsent]
            exact written_nil_of_pos hpos
        case isFalse hsome =>
            apply ensures_pure
            refine ⟨n, hle, rfl, ?_, fun hzero => absurd hzero hsome⟩
            show (if sock = sock then (memory.load (buf + bytesWritten)
              (bufLen - bytesWritten).toNat).take n else []) ++ [] = _
            rw [if_pos rfl, List.append_nil, Memory.take_load hle]
  case isFalse hwhole =>
      apply ensures_pure
      rw [left_eq_zero hdone hwhole]
      exact ⟨List.nil_prefix, by simp [sent, Memory.load]⟩

theorem ensures_writeLoop (turns : Nat) (sock : Fd) (buf bufLen : BitVec 32)
    (memory : Memory 32) {bytesWritten : BitVec 32} (hdone : bytesWritten.toNat ≤ bufLen.toNat) :
    (loop (writeTurn sock buf bufLen memory) turns bytesWritten).Ensures fun t ok =>
      Written (memory.load (buf + bytesWritten) (bufLen - bytesWritten).toNat)
        (sent sock t) ok := by
  refine ensures_loop (I := fun bytesWritten => bytesWritten.toNat ≤ bufLen.toNat)
    (Q := fun (bytesWritten : BitVec 32) t ok =>
      Written (memory.load (buf + bytesWritten) (bufLen - bytesWritten).toNat) (sent sock t) ok)
    (fun bytesWritten hdone => ?_) turns bytesWritten hdone
  refine (ensures_writeTurn sock buf bufLen memory hdone).mono fun t r hturn => ?_
  rcases r with next | ok
  · obtain ⟨n, hn, rfl, hsent, _⟩ := hturn
    refine ⟨advance_le hdone hn, fun t' ok hrest => ?_⟩
    rw [sent_append, hsent, ← toNat_left_advance hdone hn, Memory.load_append, BitVec.add_assoc]
    exact hrest.append _
  · exact hturn

theorem ensures_socketWrite (turns : Nat) (sock : Fd) (buf bufLen : BitVec 32)
    (memory : Memory 32) :
    (socketWrite turns sock buf bufLen memory).Ensures fun t ok =>
      Written (memory.load buf bufLen.toNat) (sent sock t) ok := by
  intro t ok hreturns
  have hwritten := ensures_writeLoop turns sock buf bufLen memory (Nat.zero_le _) t ok hreturns
  simpa using hwritten

/-! ## Reading -/

theorem Stored.store {room : BitVec 32} {len : Nat}
    (hbytes : (bytes ++ more).length ≤ 2 ^ 32)
    (h : Stored (memory.store room bytes) (room + BitVec.ofNat 32 bytes.length) len more ok
      memory') :
    Stored memory room (bytes.length + len) (bytes ++ more) ok memory' := by
  constructor
  · rw [List.length_append]
    exact Nat.add_le_add_left h.fits _
  · rw [h.stored, Memory.store_append hbytes]
  · rw [h.whole, List.length_append, Nat.add_right_inj]

theorem stored_nil_of_pos {room : BitVec 32} {len : Nat} (hpos : 0 < len) :
    Stored memory room len [] false memory :=
  ⟨Nat.zero_le _, rfl, by simpa using Nat.ne_of_lt hpos⟩

theorem ensures_readTurn (sock : Fd) (outBuf bufLen : BitVec 32) (memory : Memory 32)
    {bytesRead : BitVec 32} (hdone : bytesRead.toNat ≤ bufLen.toNat) :
    (readTurn sock outBuf bufLen (bytesRead, memory)).Ensures fun t r =>
      match r with
      | .inl (next, memory') => (received sock t).length ≤ (bufLen - bytesRead).toNat ∧
          next = bytesRead + BitVec.ofNat 32 (received sock t).length ∧
          memory' = memory.store (outBuf + bytesRead) (received sock t) ∧
          (received sock t = [] → ∃ e, t = [e] ∧ Interrupted e)
      | .inr (ok, memory') => Stored memory (outBuf + bytesRead) (bufLen - bytesRead).toNat
          (received sock t) ok memory' := by
  unfold readTurn
  dsimp only
  split
  case isTrue hleft =>
      have hpos : 0 < (bufLen - bytesRead).toNat := left_pos hleft
      apply ensures_perform
      intro r
      rcases r with errno | ⟨bs, hbs⟩
      · cases errno
        case eintr =>
            apply ensures_pure
            exact ⟨Nat.zero_le _, by simp [received, receivedBy], rfl, fun _ => ⟨_, rfl, rfl⟩⟩
        all_goals
          apply ensures_pure
          exact stored_nil_of_pos hpos
      · have hreceived : received sock
            [⟨.recv sock (bufLen - bytesRead), .ok ⟨bs, hbs⟩⟩] = bs := by
          simp [received, receivedBy]
        dsimp only
        split
        case isTrue hclosed =>
            apply ensures_pure
            rw [hreceived]
            obtain rfl : bs = [] := hclosed
            exact stored_nil_of_pos hpos
        case isFalse hsome =>
            apply ensures_pure
            dsimp only
            rw [hreceived]
            exact ⟨Nat.le_trans hbs (Nat.min_le_left _ _), rfl, rfl,
              fun hclosed => absurd hclosed hsome⟩
  case isFalse hwhole =>
      apply ensures_pure
      rw [left_eq_zero hdone hwhole]
      exact ⟨Nat.zero_le _, rfl, by simp [received]⟩

theorem ensures_readLoop (turns : Nat) (sock : Fd) (outBuf bufLen : BitVec 32)
    {s : BitVec 32 × Memory 32} (hdone : s.1.toNat ≤ bufLen.toNat) :
    (loop (readTurn sock outBuf bufLen) turns s).Ensures fun t r =>
      Stored s.2 (outBuf + s.1) (bufLen - s.1).toNat (received sock t) r.1 r.2 := by
  refine ensures_loop (I := fun s => s.1.toNat ≤ bufLen.toNat)
    (Q := fun (s : BitVec 32 × Memory 32) t (r : Bool × Memory 32) =>
      Stored s.2 (outBuf + s.1) (bufLen - s.1).toNat (received sock t) r.1 r.2)
    (fun s hdone => ?_) turns s hdone
  obtain ⟨bytesRead, memory⟩ := s
  replace hdone : bytesRead.toNat ≤ bufLen.toNat := hdone
  refine (ensures_readTurn sock outBuf bufLen memory hdone).mono fun t r hturn => ?_
  rcases r with ⟨next, memory'⟩ | ⟨ok, memory'⟩
  · obtain ⟨hfits, rfl, rfl, _⟩ := hturn
    refine ⟨advance_le hdone hfits, fun t' r hrest => ?_⟩
    have hleft := toNat_left_advance hdone hfits
    rw [← BitVec.add_assoc] at hrest
    rw [received_append, ← hleft]
    refine Stored.store ?_ hrest
    have hrestfits : (received sock t').length ≤
        (bufLen - (bytesRead + BitVec.ofNat 32 (received sock t).length)).toNat := hrest.fits
    have hlen : (bufLen - bytesRead).toNat < 2 ^ 32 := (bufLen - bytesRead).isLt
    rw [List.length_append]
    omega
  · exact hturn

theorem ensures_socketRead (turns : Nat) (sock : Fd) (outBuf bufLen : BitVec 32)
    (memory : Memory 32) :
    (socketRead turns sock outBuf bufLen memory).Ensures fun t r =>
      Stored memory outBuf bufLen.toNat (received sock t) r.1 r.2 := by
  intro t r hreturns
  have hstored := ensures_readLoop turns sock outBuf bufLen (s := (0, memory)) (Nat.zero_le _)
    t r hreturns
  simpa using hstored

/-! ## The loops end -/

/-- The answers are not interruptions for ever. -/
def Lively (answers : Nat → (c : Call) → Answer c) : Prop :=
  ∀ k, ∃ j, k ≤ j ∧ ∀ c, ¬ Interrupted ⟨c, answers j c⟩

theorem left_advance_lt {len done : BitVec 32} {n : Nat} (h : done.toNat ≤ len.toNat)
    (hn : n ≤ (len - done).toNat) (hpos : n ≠ 0) :
    (len - (done + BitVec.ofNat 32 n)).toNat < (len - done).toNat := by
  have hleft := toNat_left_advance h hn
  omega

theorem total_writeTurn (sock : Fd) (buf bufLen : BitVec 32) (memory : Memory 32)
    (bytesWritten : BitVec 32) : (writeTurn sock buf bufLen memory bytesWritten).Total := by
  unfold writeTurn
  split
  · apply total_perform
    rintro (errno | n)
    · cases errno <;> exact total_pure _
    · dsimp only
      split <;> exact total_pure _
  · exact total_pure _

theorem total_readTurn (sock : Fd) (outBuf bufLen : BitVec 32) (s : BitVec 32 × Memory 32) :
    (readTurn sock outBuf bufLen s).Total := by
  unfold readTurn
  dsimp only
  split
  · apply total_perform
    rintro (errno | bs)
    · cases errno <;> exact total_pure _
    · dsimp only
      split <;> exact total_pure _
  · exact total_pure _

theorem advances_writeTurn (sock : Fd) (buf bufLen : BitVec 32) (memory : Memory 32) :
    Advances (writeTurn sock buf bufLen memory) (fun done => done.toNat ≤ bufLen.toNat)
      (fun done => (bufLen - done).toNat) Interrupted := by
  intro bytesWritten hdone
  refine ⟨total_writeTurn sock buf bufLen memory bytesWritten, ?_⟩
  refine (ensures_writeTurn sock buf bufLen memory hdone).mono ?_
  rintro t _ hturn next rfl
  obtain ⟨n, hn, rfl, _, hidle⟩ := hturn
  refine ⟨advance_le hdone hn, ?_⟩
  by_cases hzero : n = 0
  · exact .inr ⟨by simp [hzero], hidle hzero⟩
  · exact .inl (left_advance_lt hdone hn hzero)

theorem advances_readTurn (sock : Fd) (outBuf bufLen : BitVec 32) :
    Advances (readTurn sock outBuf bufLen) (fun s => s.1.toNat ≤ bufLen.toNat)
      (fun s => (bufLen - s.1).toNat) Interrupted := by
  rintro ⟨bytesRead, memory⟩ hdone
  refine ⟨total_readTurn sock outBuf bufLen _, ?_⟩
  refine (ensures_readTurn sock outBuf bufLen memory hdone).mono ?_
  rintro t _ hturn ⟨next, memory'⟩ rfl
  obtain ⟨hfits, rfl, rfl, hidle⟩ := hturn
  refine ⟨advance_le hdone hfits, ?_⟩
  by_cases hnil : received sock t = []
  · exact .inr ⟨by simp [hnil], hidle hnil⟩
  · exact .inl (left_advance_lt hdone hfits (by simpa using hnil))

/-- `socket_write` returns, however often it is interrupted. -/
theorem socketWrite_returns {answers : Nat → (c : Call) → Answer c} (hlively : Lively answers)
    (sock : Fd) (buf bufLen : BitVec 32) (memory : Memory 32) :
    ∃ turns t ok, (socketWrite turns sock buf bufLen memory).Returns t ok ∧
      AnsweredFrom answers 0 t :=
  (advances_writeTurn sock buf bufLen memory).loopReturns hlively (Nat.zero_le _) 0

theorem socketRead_returns {answers : Nat → (c : Call) → Answer c} (hlively : Lively answers)
    (sock : Fd) (outBuf bufLen : BitVec 32) (memory : Memory 32) :
    ∃ turns t r, (socketRead turns sock outBuf bufLen memory).Returns t r ∧
      AnsweredFrom answers 0 t :=
  (advances_readTurn sock outBuf bufLen).loopReturns (s := (0, memory)) hlively (Nat.zero_le _) 0

/-! ## Both ends of a connection -/

theorem Stored.unchanged {room : BitVec 32} {len : Nat} {a : BitVec 32}
    (h : Stored memory room len bytes ok memory') (houtside : len ≤ (a - room).toNat) :
    memory' a = memory a := by
  rw [h.stored]
  exact Memory.store_of_outside (Nat.le_trans h.fits houtside)

theorem Stored.load {room : BitVec 32} {len : BitVec 32}
    (h : Stored memory room len.toNat bytes ok memory') :
    memory'.load room bytes.length = bytes := by
  rw [h.stored]
  exact Memory.load_store (Nat.le_trans h.fits (Nat.le_of_lt len.isLt))

/-- Where everything received before is as much as was sent before, what is received now is
the beginning of what is sent now. -/
theorem received_prefix {before after : Trace Answer}
    (hlevel : (received sock' after).length = (sent sock before).length)
    (hstream : received sock' (after ++ t') <+: sent sock (before ++ t)) :
    received sock' t' <+: sent sock t := by
  rw [received_append, sent_append] at hstream
  exact ((List.prefix_append_inj_of_length_eq hlevel).mp hstream).2

/-- Whole buffers are transferred, however the transfers are cut up and interrupted: what
`socket_write` hands over, what `socket_read` stores, that two calls which succeed on the
two ends of a reliable stream transfer the buffer, and that both return. -/
theorem transfer_whole_buffer :
    (∀ {turns sock buf bufLen memory t ok},
      (socketWrite turns sock buf bufLen memory).Returns t ok →
        Written (memory.load buf bufLen.toNat) (sent sock t) ok) ∧
    (∀ {turns sock outBuf bufLen memory t ok memory'},
      (socketRead turns sock outBuf bufLen memory).Returns t (ok, memory') →
        Stored memory outBuf bufLen.toNat (received sock t) ok memory' ∧
          (∀ a, bufLen.toNat ≤ (a - outBuf).toNat → memory' a = memory a) ∧
          memory'.load outBuf (received sock t).length = received sock t) ∧
    (∀ {turns turns' sock sock' buf outBuf bufLen memory₁ memory₂ memory' t t' before after
        later},
      (socketWrite turns sock buf bufLen memory₁).Returns t true →
      (socketRead turns' sock' outBuf bufLen memory₂).Returns t' (true, memory') →
      (received sock' after).length = (sent sock before).length →
      received sock' (after ++ t') <+: sent sock (before ++ (t ++ later)) →
        memory'.load outBuf bufLen.toNat = memory₁.load buf bufLen.toNat) ∧
    ∀ {answers}, Lively answers → ∀ sock buf bufLen memory,
      (∃ turns t ok, (socketWrite turns sock buf bufLen memory).Returns t ok ∧
        AnsweredFrom answers 0 t) ∧
      ∃ turns t r, (socketRead turns sock buf bufLen memory).Returns t r ∧
        AnsweredFrom answers 0 t := by
  refine ⟨fun h => ensures_socketWrite _ _ _ _ _ _ _ h, fun h => ?_, ?_, ?_⟩
  · have hstored := ensures_socketRead _ _ _ _ _ _ _ h
    exact ⟨hstored, fun _ houtside => hstored.unchanged houtside, hstored.load⟩
  · intro turns turns' sock sock' buf outBuf bufLen memory₁ memory₂ memory' t t' before after
      later hwrite hread hlevel hstream
    have hwritten := ensures_socketWrite _ _ _ _ _ _ _ hwrite
    have hstored := ensures_socketRead _ _ _ _ _ _ _ hread
    have hsent : sent sock t = memory₁.load buf bufLen.toNat := hwritten.whole.mp rfl
    have hlength : (received sock' t').length = bufLen.toNat := hstored.whole.mp rfl
    have hprefix := received_prefix hlevel hstream
    rw [sent_append, hsent] at hprefix
    have hload := hstored.load
    rw [hlength] at hload
    have hsame : (received sock' t').length = (memory₁.load buf bufLen.toNat).length := by
      rw [hlength, Memory.length_load]
    rw [hload]
    exact (List.prefix_of_prefix_length_le hprefix (List.prefix_append _ _)
      (Nat.le_of_eq hsame)).eq_of_length hsame
  · intro answers hlively sock buf bufLen memory
    exact ⟨socketWrite_returns hlively sock buf bufLen memory,
      socketRead_returns hlively sock buf bufLen memory⟩

/-- A buffer of three bytes that is sent in two parts. -/
def sentInParts : Trace Answer :=
  [⟨.send 3 [1, 2, 3], .ok ⟨2, by decide⟩⟩, ⟨.send 3 [3], .error .eintr⟩,
    ⟨.send 3 [3], .ok ⟨1, by decide⟩⟩]

def receivedInParts : Trace Answer :=
  [⟨.recv 4 3, .error .eintr⟩, ⟨.recv 4 3, .ok ⟨[1], by decide⟩⟩,
    ⟨.recv 4 2, .ok ⟨[2, 3], by decide⟩⟩]

def bufferOf123 : Memory 32 := Memory.store (fun _ => 0) 0x100 [1, 2, 3]

/-- Only `send` succeeds, with one byte at a time. -/
def bytewise : (c : Call) → Answer c
  | .getaddrinfo .. => none
  | .socket .. | .getFlags _ | .setNodelay _ | .setFlags _ _ | .connect _ _ => .error .etimedout
  | .getSocketError _ | .recv _ _ => .error .etimedout
  | .getTime => (0 : Int)
  | .poll _ _ => ⟨.ok 0, 0⟩
  | .freeaddrinfo | .close _ => ()
  | .send _ bytes => .ok ⟨min bytes.length 1, by simp only [ssizeMax]; omega⟩

theorem transfer_whole_buffer_in_parts :
    (∃ memory', (socketRead 4 4 0x200 3 fun _ => 0).Returns receivedInParts (true, memory') ∧
      memory'.load 0x200 3 = bufferOf123.load 0x100 3) ∧
    ∃ turns t ok, (socketWrite turns 3 0x100 3 bufferOf123).Returns t ok ∧
      AnsweredFrom (fun _ => bytewise) 0 t := by
  have hwrite : (socketWrite 4 3 0x100 3 bufferOf123).Returns sentInParts true :=
    returns_of_replay rfl
  obtain ⟨memory', hread⟩ : ∃ memory',
      (socketRead 4 4 0x200 3 fun _ => 0).Returns receivedInParts (true, memory') :=
    ⟨_, returns_of_replay rfl⟩
  have hstream : received 4 ([] ++ receivedInParts) <+: sent 3 ([] ++ (sentInParts ++ [])) := by
    decide
  have hlively : Lively fun _ => bytewise := by
    refine fun k => ⟨k, Nat.le_refl k, fun c => ?_⟩
    cases c <;> simp [Interrupted, bytewise]
  exact ⟨⟨memory', hread, transfer_whole_buffer.2.2.1 hwrite hread rfl hstream⟩,
    (transfer_whole_buffer.2.2.2 hlively 3 0x100 3 bufferOf123).1⟩

end GbPlay.Esp.Socket
