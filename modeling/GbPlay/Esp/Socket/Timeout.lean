import GbPlay.Esp.Socket.Model

/-!
# The timeout of a connection attempt

`_wait_for_socket_connect` computes how long it may still wait, but gives every
`poll` the whole timeout.  It returns when the clock has passed the cutoff.
-/

namespace GbPlay.Esp.Socket

open GbPlay.Library.Calls GbPlay.Library.Calls.Program

/-- A call of `poll`, with the last clock reading before it. -/
structure Wait where
  now : Int
  timeoutMs : Int
  polled : Polled

/-- The calls of `poll` in a trace that follows the clock reading `last`. -/
def waits (last : Int) : Trace Answer → List Wait
  | [] => []
  | ⟨.getTime, now⟩ :: t => waits now t
  | ⟨.poll _ timeoutMs, polled⟩ :: t => ⟨last, timeoutMs, polled⟩ :: waits last t
  | _ :: t => waits last t

def reading (e : Event Answer) : Option Int :=
  match e with
  | ⟨.getTime, now⟩ => some now
  | _ => none

def readings (t : Trace Answer) : List Int := t.filterMap reading

/-- No wait is given more than the time that remains, rounded up to milliseconds; if they
all end within the time they are given, the last one ends within the timeout. -/
structure Bounded (timeoutMs start : Int) (t : Trace Answer) : Prop where
  given : ∀ w ∈ waits start t,
    w.timeoutMs * 1000 < start + timeoutMs * 1000 - w.now + 1000
  ended : (∀ w ∈ waits start t, w.polled.time ≤ w.now + w.timeoutMs * 1000) →
    ∀ w ∈ waits start t, w.polled.time < start + timeoutMs * 1000 + 1000

/-- No reading of the clock after which there is still time to wait is a millisecond or
more after the first one. -/
def Prompt (timeoutMs start : Int) (t : Trace Answer) : Prop :=
  ∀ now ∈ readings t, 0 < msToWait (start + timeoutMs * 1000) now → now < start + 1000

/-- The loop waits after each reading of the clock that leaves time for it, and always for
the whole timeout. -/
structure WaitsInFull (timeoutMs cutoffTime : Int) (t : Trace Answer) : Prop where
  readings : ∀ last, (waits last t).map Wait.now =
    (readings t).filter fun now => 0 < msToWait cutoffTime now
  inFull : ∀ last, ∀ w ∈ waits last t, w.timeoutMs = timeoutMs

variable {timeoutMs cutoffTime start : Int} {t : Trace Answer}

theorem WaitsInFull.nil : WaitsInFull timeoutMs cutoffTime [] :=
  ⟨fun _ => rfl, fun _ _ hw => absurd hw List.not_mem_nil⟩

/-- A turn that waits. -/
theorem WaitsInFull.cons (h : WaitsInFull timeoutMs cutoffTime t) {now : Int}
    (hpos : 0 < msToWait cutoffTime now) (sock : Fd) (polled : Polled) :
    WaitsInFull timeoutMs cutoffTime
      (⟨.getTime, now⟩ :: ⟨.poll sock timeoutMs, polled⟩ :: t) := by
  constructor
  · intro last
    have hreadings : Socket.readings (⟨.getTime, now⟩ :: ⟨.poll sock timeoutMs, polled⟩ :: t) =
        now :: Socket.readings t := rfl
    rw [hreadings, List.filter_cons_of_pos (by simpa using hpos), ← h.readings now]
    rfl
  · intro last w hw
    rcases List.mem_cons.mp hw with rfl | hw
    · rfl
    · exact h.inFull now w hw

theorem ensures_waitTurn_waits (sock : Fd) (timeoutMs cutoffTime : Int) :
    (waitTurn sock timeoutMs cutoffTime).Ensures fun t r =>
      match r with
      | .inl _ => ∃ now polled, 0 < msToWait cutoffTime now ∧
          t = [⟨.getTime, now⟩, ⟨.poll sock timeoutMs, polled⟩]
      | .inr _ => WaitsInFull timeoutMs cutoffTime t := by
  unfold waitTurn
  apply ensures_perform
  intro now
  split
  case isTrue hover =>
      apply ensures_pure
      constructor
      · intro last
        simp [waits, Socket.readings, reading, hover]
      · intro last
        simp [waits]
  case isFalse hwait =>
      have hpos : 0 < msToWait cutoffTime now := Int.not_le.mp hwait
      apply ensures_perform
      intro polled
      obtain ⟨rc, time⟩ := polled
      rcases rc with errno | _ | n
      · cases errno
        case eintr =>
            apply ensures_pure
            exact ⟨now, _, hpos, rfl⟩
        all_goals
          apply ensures_pure
          exact WaitsInFull.nil.cons hpos sock _
      · apply ensures_pure
        exact WaitsInFull.nil.cons hpos sock _
      · have hfull (r : Answer (.getSocketError sock)) :
            WaitsInFull timeoutMs cutoffTime [⟨.getTime, now⟩,
              ⟨.poll sock timeoutMs, ⟨.ok (n + 1), time⟩⟩, ⟨.getSocketError sock, r⟩] := by
          have hrest : WaitsInFull timeoutMs cutoffTime [⟨.getSocketError sock, r⟩] :=
            ⟨fun _ => rfl, fun _ _ hw => absurd hw List.not_mem_nil⟩
          exact hrest.cons hpos sock _
        unfold getSocketError
        apply ensures_bind
        apply ensures_perform
        intro r
        rcases r with errno | _ | sockError
        all_goals
          apply ensures_pure
          apply ensures_pure
          exact hfull _

theorem waitsInFull_waitForSocketConnect {turns : Nat} {sock : Fd} {ok : Bool}
    (h : (waitForSocketConnect turns sock timeoutMs).Returns (⟨.getTime, start⟩ :: t) ok) :
    WaitsInFull timeoutMs (start + toInt32 (timeoutMs * 1000)) t := by
  obtain ⟨now, t', htrace, hloop⟩ := returns_call_iff.mp h
  obtain ⟨hnow, rfl⟩ := List.cons.inj htrace
  cases hnow
  refine ensures_loop (I := fun _ => True)
    (Q := fun (_ : Unit) t (_ : Bool) => WaitsInFull timeoutMs _ t) (fun _ _ => ?_)
    turns () trivial _ _ hloop
  refine (ensures_waitTurn_waits sock timeoutMs _).mono fun t r hturn => ?_
  rcases r with _ | ok
  · obtain ⟨now, polled, hpos, rfl⟩ := hturn
    exact ⟨trivial, fun t' _ hrest => hrest.cons hpos sock polled⟩
  · exact hturn

/-! ## The wait ends -/

def sockErrorOf (e : Event Answer) : Option (Except Errno (Option Errno)) :=
  match e with
  | ⟨.getSocketError _, sockError⟩ => some sockError
  | _ => none

/-- The error of the socket, whenever it is asked for. -/
def SockErrorIs (sockError : Except Errno (Option Errno)) (t : Trace Answer) : Prop :=
  ∀ e ∈ t, ∀ r, sockErrorOf e = some r → r = sockError

/-- The clock and `poll` answer as they do one turn after the other, and the socket has the
error that it has. -/
structure AnsweredBy (now : Nat → Int) (polled : Nat → Polled)
    (sockError : Except Errno (Option Errno)) (turns : Nat) (t : Trace Answer) : Prop where
  readings : readings t <+: (List.range turns).map now
  polled : ∀ last, (waits last t).map Wait.polled <+: (List.range turns).map polled
  sockError : SockErrorIs sockError t

theorem map_range_succ {α : Type*} (f : Nat → α) (n : Nat) :
    (List.range (n + 1)).map f = f 0 :: (List.range n).map fun i => f (i + 1) := by
  rw [List.range_succ_eq_map, List.map_cons, List.map_map]
  rfl

variable {now : Nat → Int} {polled : Nat → Polled} {turns : Nat} {sock : Fd}
  {sockError : Except Errno (Option Errno)}

/-- The answers of a last turn. -/
theorem AnsweredBy.last (hreadings : Socket.readings t = [now 0])
    (hpolled : ∀ last, (waits last t).map Wait.polled <+: [polled 0])
    (hsockError : SockErrorIs sockError t) :
    AnsweredBy now polled sockError (turns + 1) t := by
  refine ⟨?_, ?_, hsockError⟩
  · rw [hreadings, map_range_succ]
    exact List.cons_prefix_cons.mpr ⟨rfl, List.nil_prefix⟩
  · intro last
    rw [map_range_succ]
    exact (hpolled last).trans (List.cons_prefix_cons.mpr ⟨rfl, List.nil_prefix⟩)

/-- The answers of an interrupted turn and of those after it. -/
theorem AnsweredBy.cons
    (h : AnsweredBy (fun i => now (i + 1)) (fun i => polled (i + 1)) sockError turns t) :
    AnsweredBy now polled sockError (turns + 1)
      (⟨.getTime, now 0⟩ :: ⟨.poll sock timeoutMs, polled 0⟩ :: t) := by
  refine ⟨?_, ?_, ?_⟩
  · rw [map_range_succ]
    exact List.cons_prefix_cons.mpr ⟨rfl, h.readings⟩
  · intro last
    rw [map_range_succ]
    exact List.cons_prefix_cons.mpr ⟨rfl, h.polled (now 0)⟩
  · rw [SockErrorIs, List.forall_mem_cons, List.forall_mem_cons]
    exact ⟨by simp [sockErrorOf], by simp [sockErrorOf], h.sockError⟩

theorem getSocketError_returns (sock : Fd) (sockError : Except Errno (Option Errno)) :
    ∃ e, (getSocketError sock).Returns [⟨.getSocketError sock, sockError⟩] e := by
  cases sockError
  case error errno => exact ⟨some errno, .call (.done _)⟩
  case ok e => exact ⟨e, .call (.done _)⟩

/-- A turn that waits makes no call but those of the clock and `poll`, and that for the
error of the socket when `poll` finds it ready. -/
theorem waitTurn_returns_of_pos (sock : Fd) (timeoutMs : Int) {now : Int}
    (hpos : 0 < msToWait cutoffTime now) (polled : Polled)
    (sockError : Except Errno (Option Errno)) :
    ∃ t r, (waitTurn sock timeoutMs cutoffTime).Returns
        (⟨.getTime, now⟩ :: ⟨.poll sock timeoutMs, polled⟩ :: t) r ∧
      Socket.readings t = [] ∧ (∀ last, waits last t = []) ∧
      SockErrorIs sockError t ∧ (r = .inl () → t = []) := by
  have hnot : ¬ msToWait cutoffTime now ≤ 0 := Int.not_le.mpr hpos
  obtain ⟨rc, time⟩ := polled
  rcases rc with errno | _ | n
  · refine ⟨[], if errno = .eintr then .inl () else .inr false,
      returns_perform_iff.mpr ⟨now, _, rfl, ?_⟩, rfl, fun _ => rfl, List.forall_mem_nil _,
      fun _ => rfl⟩
    rw [if_neg hnot]
    cases errno
    all_goals exact .call (.done _)
  · refine ⟨[], .inr false, returns_perform_iff.mpr ⟨now, _, rfl, ?_⟩, rfl, fun _ => rfl,
      List.forall_mem_nil _, fun _ => rfl⟩
    rw [if_neg hnot]
    exact .call (.done _)
  · obtain ⟨e, herror⟩ := getSocketError_returns sock sockError
    refine ⟨[⟨.getSocketError sock, sockError⟩], .inr e.isNone,
      returns_perform_iff.mpr ⟨now, _, rfl, ?_⟩, rfl, fun _ => rfl, ?_,
      fun h => absurd h Sum.inr_ne_inl⟩
    swap
    · rw [SockErrorIs, List.forall_mem_singleton]
      exact fun r hr => (Option.some.inj hr).symm
    rw [if_neg hnot]
    refine returns_perform_iff.mpr ⟨_, _, rfl, ?_⟩
    refine returns_bind_iff.mpr ⟨e, _, [], rfl, herror, ?_⟩
    cases e
    all_goals exact .done _

/-- A turn of the loop ends it, or was interrupted. -/
theorem waitTurn_returns (sock : Fd) (timeoutMs cutoffTime : Int) (now : Nat → Int)
    (polled : Nat → Polled) (sockError : Except Errno (Option Errno)) :
    (∃ t ok, (waitTurn sock timeoutMs cutoffTime).Returns t (.inr ok) ∧
        ∀ turns, AnsweredBy now polled sockError (turns + 1) t) ∨
      0 < msToWait cutoffTime (now 0) ∧ (waitTurn sock timeoutMs cutoffTime).Returns
        [⟨.getTime, now 0⟩, ⟨.poll sock timeoutMs, polled 0⟩] (.inl ()) := by
  by_cases hover : msToWait cutoffTime (now 0) ≤ 0
  · refine .inl ⟨[⟨.getTime, now 0⟩], false, returns_perform_iff.mpr ⟨now 0, _, rfl, ?_⟩,
      fun _ => .last rfl (fun _ => List.nil_prefix) ?_⟩
    · rw [if_pos hover]
      exact .done _
    · rw [SockErrorIs, List.forall_mem_singleton]
      simp [sockErrorOf]
  · have hpos : 0 < msToWait cutoffTime (now 0) := Int.not_le.mp hover
    obtain ⟨t, r, hturn, hreadings, hwaits, hsockError, hinterrupted⟩ :=
      waitTurn_returns_of_pos sock timeoutMs hpos (polled 0) sockError
    rcases r with _ | ok
    · rw [hinterrupted rfl] at hturn
      exact .inr ⟨hpos, hturn⟩
    · refine .inl ⟨_, ok, hturn, fun turns => .last ?_ (fun last => ?_) ?_⟩
      · exact congrArg (now 0 :: ·) hreadings
      · show (polled 0 :: (waits (now 0) t).map Wait.polled) <+: _
        rw [hwaits (now 0)]
        exact List.prefix_rfl
      · rw [SockErrorIs, List.forall_mem_cons, List.forall_mem_cons]
        exact ⟨by simp [sockErrorOf], by simp [sockErrorOf], hsockError⟩

/-- However often it is interrupted, the loop ends when a reading of the clock leaves no
time to wait. -/
theorem loop_waitTurn_returns (sockError : Except Errno (Option Errno))
    (now : Nat → Int) (polled : Nat → Polled) {k : Nat}
    (hover : msToWait cutoffTime (now k) ≤ 0) :
    ∃ t ok, (loop (fun _ => waitTurn sock timeoutMs cutoffTime) (k + 1) ()).Returns t ok ∧
      AnsweredBy now polled sockError (k + 1) t := by
  induction k generalizing now polled with
  | zero =>
      rcases waitTurn_returns sock timeoutMs cutoffTime now polled sockError with
        ⟨t, ok, hturn, hanswered⟩ | ⟨hwait, _⟩
      · refine ⟨t, ok, returns_bind_iff.mpr ⟨.inr ok, t, [], ?_, hturn, .done ok⟩, hanswered 0⟩
        exact (List.append_nil t).symm
      · exact absurd hover (Int.not_le.mpr hwait)
  | succ k ih =>
      rcases waitTurn_returns sock timeoutMs cutoffTime now polled sockError with
        ⟨t, ok, hturn, hanswered⟩ | ⟨_, hturn⟩
      · refine ⟨t, ok, returns_bind_iff.mpr ⟨.inr ok, t, [], ?_, hturn, .done ok⟩,
          hanswered (k + 1)⟩
        exact (List.append_nil t).symm
      · obtain ⟨t, ok, hloop, hanswered⟩ :=
          ih (fun i => now (i + 1)) (fun i => polled (i + 1)) hover
        exact ⟨_, ok, returns_bind_iff.mpr ⟨.inl (), _, t, rfl, hturn, hloop⟩, hanswered.cons⟩

/-! ## The bound -/

/-- The whole timeout is no more than the time that remains just in the first millisecond. -/
theorem given_iff (timeoutMs start now : Int) :
    timeoutMs * 1000 < start + timeoutMs * 1000 - now + 1000 ↔ now < start + 1000 := by
  omega

theorem toInt32_timeout (hpos : 0 < timeoutMs) (hrange : timeoutMs * 1000 < 2 ^ 31) :
    toInt32 (timeoutMs * 1000) = timeoutMs * 1000 := by
  rw [toInt32, Int.bmod_eq_of_le]
  all_goals omega

/-- Once all waits are in full, what is left is when they begin. -/
theorem WaitsInFull.bounded_iff (h : WaitsInFull timeoutMs (start + timeoutMs * 1000) t) :
    Bounded timeoutMs start t ↔ Prompt timeoutMs start t := by
  have hprompt : Prompt timeoutMs start t ↔ ∀ w ∈ waits start t, w.now < start + 1000 := by
    have hmap : Prompt timeoutMs start t ↔
        ∀ now ∈ (waits start t).map Wait.now, now < start + 1000 := by
      rw [h.readings start]
      simp [Prompt]
    rw [hmap, List.forall_mem_map]
  rw [hprompt]
  constructor
  · intro hbounded w hw
    have := hbounded.given w hw
    rwa [h.inFull start w hw, given_iff] at this
  · intro hearly
    refine ⟨fun w hw => ?_, fun hreturn w hw => ?_⟩
    · rw [h.inFull start w hw, given_iff]
      exact hearly w hw
    · have hend := hreturn w hw
      have hbegin := hearly w hw
      rw [h.inFull start w hw] at hend
      omega

/-- The timeout bounds the wait if and only if there is no wait after its first
millisecond.  Whatever the clock and `poll` answer, the wait ends when the clock has passed
the cutoff, if there are turns enough. -/
theorem bounded_iff_prompt (hpos : 0 < timeoutMs) (hrange : timeoutMs * 1000 < 2 ^ 31)
    (sock : Fd) (start : Int) :
    (∀ turns t ok, (waitForSocketConnect turns sock timeoutMs).Returns (⟨.getTime, start⟩ :: t) ok →
      (Bounded timeoutMs start t ↔ Prompt timeoutMs start t)) ∧
    ∀ (sockError : Except Errno (Option Errno)) (now : Nat → Int) (polled : Nat → Polled) k,
      msToWait (start + timeoutMs * 1000) (now k) ≤ 0 → ∀ turns, k < turns →
      ∃ t ok, (waitForSocketConnect turns sock timeoutMs).Returns (⟨.getTime, start⟩ :: t) ok ∧
        AnsweredBy now polled sockError (k + 1) t := by
  have hcutoff := toInt32_timeout hpos hrange
  constructor
  · intro turns t ok h
    have hwaits := waitsInFull_waitForSocketConnect h
    rw [hcutoff] at hwaits
    exact hwaits.bounded_iff
  · intro sockError now polled k hover turns hturns
    obtain ⟨t, ok, hloop, hanswered⟩ := loop_waitTurn_returns sockError now polled hover
    refine ⟨t, ok, returns_call_iff.mpr ⟨start, t, rfl, ?_⟩, hanswered⟩
    rw [hcutoff]
    exact returns_loop_of_le hturns hloop

/-- The socket becomes writable before any interruption; and a wait that is interrupted ends when
the ten seconds are over. -/
theorem bounded_iff_prompt_uninterrupted :
    Bounded 10000 0 [⟨.getTime, (10 : Int)⟩, ⟨.poll 3 10000, ⟨.ok 1, 900⟩⟩,
        ⟨.getSocketError 3, .ok none⟩] ∧
      ∃ t ok, (waitForSocketConnect 2 3 10000).Returns (⟨.getTime, (0 : Int)⟩ :: t) ok ∧
        AnsweredBy (fun i => 10 + i * 9999990) (fun _ => ⟨.error .eintr, 9000000⟩) (.ok none) 2
          t := by
  have hreturns : (waitForSocketConnect 1 3 10000).Returns
      [⟨.getTime, (0 : Int)⟩, ⟨.getTime, (10 : Int)⟩, ⟨.poll 3 10000, ⟨.ok 1, 900⟩⟩,
        ⟨.getSocketError 3, .ok none⟩] true := returns_of_replay rfl
  obtain ⟨hiff, hends⟩ := @bounded_iff_prompt 10000 (by decide) (by decide) 3 0
  constructor
  · refine (hiff 1 _ true hreturns).mpr ?_
    simp [Prompt, readings, reading]
  · exact hends (.ok none) (fun i => 10 + i * 9999990) (fun _ => ⟨.error .eintr, 9000000⟩) 1
      (by decide) 2 (by decide)

/-- Interrupted after 9 of 10 seconds, the wait goes on for another 10. -/
theorem interrupted_wait_exceeds_timeout :
    (waitForSocketConnect 2 3 10000).Returns
        [⟨.getTime, (0 : Int)⟩, ⟨.getTime, (10 : Int)⟩,
          ⟨.poll 3 10000, ⟨.error .eintr, 9000000⟩⟩, ⟨.getTime, (9000000 : Int)⟩,
          ⟨.poll 3 10000, ⟨.ok 0, 19000000⟩⟩] false ∧
      ¬ Bounded 10000 0
        [⟨.getTime, (10 : Int)⟩, ⟨.poll 3 10000, ⟨.error .eintr, 9000000⟩⟩,
          ⟨.getTime, (9000000 : Int)⟩, ⟨.poll 3 10000, ⟨.ok 0, 19000000⟩⟩] := by
  refine ⟨returns_of_replay rfl, fun hbounded => ?_⟩
  have hlast := hbounded.given ⟨9000000, 10000, ⟨.ok 0, 19000000⟩⟩ (by simp [waits])
  exact absurd hlast (by decide)

end GbPlay.Esp.Socket
