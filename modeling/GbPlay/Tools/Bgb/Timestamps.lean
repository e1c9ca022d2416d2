import GbPlay.Tools.Bgb.Server
import GbPlay.Library.Histories

/-!
# The timestamps of the packets that handlers send

Every packet carries the time of its sending, and the server pretends to be in
sync with the emulator by returning the timestamp that it has received last.
What it stores is the greatest one that it has received, which is another one
when the emulator's counter has gone back.
-/

namespace GbPlay.Tools.Bgb.Timestamps

open GbPlay.Library.Runs GbPlay.Library.Histories
open GbPlay.Server.Client (Byte)

/-- The timestamps that have been received, the last one first. -/
def receivedTimestamps : List Action → List UInt32
  | [] => []
  | .unpacked p :: past => p.i1 :: receivedTimestamps past
  | _ :: past => receivedTimestamps past

/-- What a handler has sent carries the timestamp of the packet received last. -/
def Stamped (a : Action) (past : List Action) : Prop :=
  ∀ p, a = .sent .handler p → (receivedTimestamps past).head? = some p.i1

/-- When a handler has sent, the packet received last had no lower timestamp than any
packet before it. -/
def InOrder (a : Action) (past : List Action) : Prop :=
  ∀ p, a = .sent .handler p →
    ∀ last ∈ (receivedTimestamps past).head?, ∀ i ∈ receivedTimestamps past, i ≤ last

/-- The packet that an action is the sending of by a handler. -/
def sentByHandler : Action → Option Packet
  | .sent .handler p => some p
  | _ => none

theorem forall_sentByHandler {a : Action} {P : Packet → Prop} :
    (∀ p ∈ sentByHandler a, P p) ↔ ∀ p, a = .sent .handler p → P p := by
  constructor
  · rintro h p rfl
    exact h p rfl
  · intro h p hp
    unfold sentByHandler at hp
    split at hp <;> cases hp
    exact h p rfl

instance (a : Action) (past : List Action) : Decidable (Stamped a past) :=
  decidable_of_iff _ (forall_sentByHandler (P := fun p =>
    (receivedTimestamps past).head? = some p.i1))

/-- The last of the timestamps is not lower than any. -/
def isHighest (timestamps : List UInt32) : Bool :=
  timestamps.head?.all fun last => timestamps.all fun i => decide (i ≤ last)

theorem isHighest_iff {timestamps : List UInt32} : isHighest timestamps = true ↔
    ∀ last ∈ timestamps.head?, ∀ i ∈ timestamps, i ≤ last := by
  cases timestamps <;> simp [isHighest]

instance (a : Action) (past : List Action) : Decidable (InOrder a past) :=
  decidable_of_iff (∀ p ∈ sentByHandler a, isHighest (receivedTimestamps past) = true)
    (forall_sentByHandler.trans (forall₂_congr fun _ _ => isHighest_iff))

/-- The timestamp that the server stores. -/
def greatest : List UInt32 → UInt32
  | [] => 0
  | i :: is => if i > greatest is then i else greatest is

theorem le_greatest {is : List UInt32} {i : UInt32} (h : i ∈ is) : i ≤ greatest is := by
  induction is with
  | nil => cases h
  | cons j is ih =>
      rw [greatest]
      rcases List.mem_cons.mp h with rfl | h
      · split
        · exact UInt32.le_refl _
        · rename_i hle
          exact UInt32.not_lt.mp hle
      · split
        · rename_i hlt
          exact UInt32.le_trans (ih h) (UInt32.le_of_lt hlt)
        · exact ih h

theorem greatest_mem {is : List UInt32} (h : is ≠ []) (hpos : greatest is ≠ 0) :
    greatest is ∈ is := by
  induction is with
  | nil => exact absurd rfl h
  | cons j is ih =>
      rw [greatest] at hpos ⊢
      split at hpos
      · rename_i hlt
        rw [if_pos hlt]
        exact List.mem_cons_self
      · rename_i hle
        rw [if_neg hle]
        apply List.mem_cons_of_mem
        apply ih
        · rintro rfl
          exact hpos rfl
        · exact hpos

/-- The first of the timestamps is the greatest if and only if none is greater. -/
theorem head_eq_greatest_iff {last : UInt32} {is : List UInt32} :
    last = greatest (last :: is) ↔ ∀ i ∈ last :: is, i ≤ last := by
  constructor
  · intro heq i hi
    rw [heq]
    exact le_greatest hi
  · intro hall
    rw [greatest]
    split
    · rfl
    · rename_i hle
      apply UInt32.le_antisymm (UInt32.not_lt.mp hle)
      by_cases hzero : greatest is = 0
      · rw [hzero]
        exact UInt32.zero_le
      · have hne : is ≠ [] := by
          rintro rfl
          exact hzero rfl
        exact hall _ (List.mem_cons_of_mem last (greatest_mem hne hzero))

/-! ## The invariant -/

/-- The two properties agree on every packet that a handler sends. -/
def Agree (a : Action) (past : List Action) : Prop := Stamped a past ↔ InOrder a past

structure Inv (s : Server) : Prop where
  stored : s.lastReceivedTimestamp = greatest (receivedTimestamps s.log)
  sending : ∀ m i1, s.main = .sending .handler m i1 →
    i1 = s.lastReceivedTimestamp ∧ receivedTimestamps s.log ≠ []
  calling : ∀ callback byte, s.main = .calling callback byte → receivedTimestamps s.log ≠ []
  sends : Always Agree s.log

theorem inv_init : Inv {} := by
  refine ⟨rfl, ?_, ?_, trivial⟩
  · intro m i1 hmain
    cases hmain
  · intro callback byte hmain
    cases hmain

section Step

variable {given : Callback → Bool} {s s' : Server} {actions : List Action}

theorem agree_of_ne {a : Action} (h : ∀ p, a ≠ .sent .handler p) (past : List Action) :
    Agree a past :=
  iff_of_true (fun p heq => absurd heq (h p)) (fun p heq => absurd heq (h p))

theorem receivedTimestamps_append (h : ∀ a ∈ actions, isHandling a = true) (log : List Action) :
    receivedTimestamps (actions ++ log) = receivedTimestamps log := by
  induction actions with
  | nil => rfl
  | cons a actions ih =>
      have ha := h a List.mem_cons_self
      have hrest := ih fun b hb => h b (List.mem_cons_of_mem a hb)
      cases a <;> first | exact hrest | cases ha

theorem always_agree_append (h : ∀ a ∈ actions, isHandling a = true) {log : List Action}
    (hlog : Always Agree log) : Always Agree (actions ++ log) := by
  apply hlog.append
  intro a ha
  apply agree_of_ne
  rintro p rfl
  cases h _ ha

/-- A step to where nothing is about to be sent. -/
theorem Inv.goOn (h : Inv s) {main : Main} (hsending : ∀ m i1, main ≠ .sending .handler m i1)
    (hcalling : ∀ callback byte, main ≠ .calling callback byte) : Inv { s with main := main } :=
  ⟨h.stored, fun m i1 hmain => absurd hmain (hsending m i1),
    fun callback byte hmain => absurd hmain (hcalling callback byte), h.sends⟩

theorem Inv.leave (h : Inv s) : Inv s.leave := by
  refine ⟨h.stored, ?_, ?_, agree_of_ne (by simp) _, h.sends⟩
  · intro m i1 hmain
    cases hmain
  · intro callback byte hmain
    cases hmain

theorem inv_unpacked (h : Inv s) (data : List Byte) (p : Packet) (hmain : s.main = .receiving) :
    Inv (s.unpacked data p) ∧ receivedTimestamps (s.unpacked data p).log ≠ [] := by
  have hreceived : receivedTimestamps (s.unpacked data p).log =
      p.i1 :: receivedTimestamps s.log := by
    rw [Server.log_unpacked]
    rfl
  refine ⟨⟨?_, ?_, ?_, ?_⟩, by simp [hreceived]⟩
  · rw [hreceived, greatest, ← h.stored, Server.unpacked, Server.updateTimestamp_eq]
  · intro m i1
    rw [Server.main_unpacked, hmain]
    intro hne
    cases hne
  · intro callback byte
    rw [Server.main_unpacked, hmain]
    intro hne
    cases hne
  · rw [Server.log_unpacked]
    exact ⟨agree_of_ne (by simp) _, agree_of_ne (by simp) _, h.sends⟩

theorem inv_receive {data : List Byte} (h : Inv s) (hmain : s.main = .receiving) :
    Inv (s.receive given data) := by
  cases hunpack : unpack data with
  | none =>
      have hreceived : Inv { s with log := .received data :: s.log } := by
        refine ⟨h.stored, ?_, ?_, agree_of_ne (by simp) _, h.sends⟩
        · intro m i1 hsending
          exact h.sending m i1 hsending
        · intro callback byte hcalling
          exact h.calling callback byte hcalling
      rw [Server.receive_of_not_unpack hunpack]
      exact hreceived.leave
  | some p =>
      obtain ⟨hunpacked, hne⟩ := inv_unpacked h data p hmain
      obtain ⟨actions, hactions, hcases⟩ :=
        Server.dispatch_cases given (s.unpacked data p) hunpack
      have hreceived := receivedTimestamps_append hactions (s.unpacked data p).log
      have hstored := hunpacked.stored.trans (congrArg greatest hreceived.symm)
      have hsends := always_agree_append hactions hunpacked.sends
      rw [← hreceived] at hne
      rw [Server.receive_of_unpack hunpack]
      rcases hcases with ⟨_, heq⟩ | ⟨_, main, heq, hmain'⟩
      · rw [heq]
        refine ⟨hstored, ?_, ?_, agree_of_ne (by simp) _, hsends⟩
        · intro m i1 hleft
          cases hleft
        · intro callback byte hleft
          cases hleft
      · rw [heq]
        refine ⟨hstored, ?_, fun _ _ _ => hne, hsends⟩
        intro m i1 hsending
        refine ⟨?_, hne⟩
        have hsending' : main = .sending .handler m i1 := hsending
        rcases hmain' with rfl | ⟨m', rfl⟩ | ⟨callback, byte, rfl⟩
        · cases hsending'
        · cases hsending'
          rfl
        · cases hsending'

/-- A handler sends: the packet carries the greatest timestamp. -/
theorem agree_sent {log : List Action} {p : Packet}
    (hstored : p.i1 = greatest (receivedTimestamps log)) (hne : receivedTimestamps log ≠ []) :
    Agree (.sent .handler p) log := by
  obtain ⟨last, is, hreceived⟩ := List.exists_cons_of_ne_nil hne
  have hiff : last = p.i1 ↔ ∀ i ∈ last :: is, i ≤ last := by
    rw [hstored, hreceived]
    exact head_eq_greatest_iff
  simpa [Agree, Stamped, InOrder, hreceived] using hiff

theorem inv_sendPacket {sender : Sender} {m : Message} {i1 : UInt32} {ok : Bool} (h : Inv s)
    (hsender : sender = .handler → i1 = s.lastReceivedTimestamp ∧ receivedTimestamps s.log ≠ []) :
    Inv (s.sendPacket sender m i1 ok) := by
  cases hreaches : s.reachesConnection m i1 with
  | false =>
      have hlog := Server.sendPacket_log_of_not_reaches sender ok hreaches
      constructor
      · rw [hlog, Server.sendPacket_lastReceivedTimestamp]
        exact h.stored
      · rw [hlog, Server.sendPacket_lastReceivedTimestamp, Server.sendPacket_main]
        exact h.sending
      · rw [hlog, Server.sendPacket_main]
        exact h.calling
      · rw [hlog]
        exact h.sends
  | true =>
      obtain ⟨p, hpack, hlog⟩ := Server.sendPacket_log_of_reaches sender ok hreaches
      have hreceived : receivedTimestamps (s.sendPacket sender m i1 ok).log =
          receivedTimestamps s.log := by
        rw [hlog]
        cases ok <;> rfl
      constructor
      · rw [hreceived, Server.sendPacket_lastReceivedTimestamp]
        exact h.stored
      · rw [hreceived, Server.sendPacket_lastReceivedTimestamp, Server.sendPacket_main]
        exact h.sending
      · rw [hreceived, Server.sendPacket_main]
        exact h.calling
      · rw [hlog]
        refine ⟨?_, h.sends⟩
        cases ok with
        | false => exact agree_of_ne (by simp) _
        | true =>
            cases sender with
            | handshake => exact agree_of_ne (by simp) _
            | thread => exact agree_of_ne (by simp) _
            | handler =>
                obtain ⟨hi1, hne⟩ := hsender rfl
                exact agree_sent (by rw [i1_of_pack hpack, hi1, h.stored]) hne

theorem inv_step {l : Label} (h : Inv s) (hstep : step given s l = some s') : Inv s' := by
  cases move_of_step hstep with
  | accept =>
      refine ⟨h.stored, ?_, ?_, h.sends⟩
      · intro m i1 hmain
        cases hmain
      · intro callback byte hmain
        cases hmain
  | goOn => exact h.goOn (by simp) (by simp)
  | stopped => exact h.leave
  | receive hmain => exact inv_receive h hmain
  | recvError => exact h.leave
  | raise => exact h.leave
  | silence => exact h.goOn (by simp) (by simp)
  | answer hmain =>
      have hne := h.calling _ _ hmain
      refine ⟨h.stored, ?_, fun _ _ _ => hne, h.sends⟩
      intro m i1 hsending
      cases hsending
      exact ⟨rfl, hne⟩
  | @send sender m i1 ok hmain =>
      have hsent : Inv (s.sendPacket sender m i1 ok) := by
        apply inv_sendPacket h
        rintro rfl
        exact h.sending m i1 hmain
      exact hsent.goOn (by simp) (by simp)
  | stop => exact ⟨h.stored, h.sending, h.calling, h.sends⟩
  | sendMasterByte => exact ⟨h.stored, h.sending, h.calling, h.sends⟩
  | @threadSend i m i1 ok =>
      have hsent : Inv (s.sendPacket .thread m i1 ok) := inv_sendPacket h (by simp)
      exact ⟨hsent.stored, hsent.sending, hsent.calling, hsent.sends⟩

end Step

/-! ## The contract -/

/-- In every run, the packets that handlers send carry the timestamp received last if
and only if, whenever a handler sent one, no greater timestamp had been received before. -/
theorem stamped_iff_inOrder {given : Callback → Bool} {s : Server}
    (h : Reachable (Fires (step given)) {} s) :
    Always Stamped s.log ↔ Always InOrder s.log := by
  have hinv : Inv s := h.invariant inv_init fun _ _ _ hinv hfire => inv_step hinv hfire
  exact hinv.sends.congr

/-- The emulator connects and sends status packets, which are answered. -/
def statuses (timestamps : List UInt32) : List Label :=
  [.accept, .send true] ++
    timestamps.flatMap fun i => [.check, .recv (Packet.bytes ⟨108, 1, 0, 0, i⟩), .send true]

def sentTimestamp : Action → Option UInt32
  | .sent .handler p => some p.i1
  | _ => none

/-- Two packets in the order of their timestamps. -/
theorem stamped_iff_inOrder_statuses :
    ∃ s : Server, s.log.filterMap sentTimestamp = [200, 100] ∧ Always Stamped s.log := by
  have hrun : (exec (step fun _ => false) {} (statuses [100, 200])).any
      (fun s => decide (s.log.filterMap sentTimestamp = [200, 100]) &&
        decide (Always InOrder s.log)) = true := by
    decide
  obtain ⟨s, hs, hp⟩ := exists_reachable_of_exec hrun
  rw [Bool.and_eq_true, decide_eq_true_eq, decide_eq_true_eq] at hp
  exact ⟨s, hp.1, (stamped_iff_inOrder hs).mpr hp.2⟩

/-- The emulator's counter wraps around between two packets, and the second one is
answered with the timestamp of the first. -/
theorem stamped_after_wrap :
    ∃ s, Reachable (Fires (step fun _ => false)) {} s ∧
      s.log.filterMap sentTimestamp = [0xfffffff0, 0xfffffff0] ∧ ¬ Always Stamped s.log := by
  have hrun : (exec (step fun _ => false) {} (statuses [0xfffffff0, 5])).any
      (fun s => decide (s.log.filterMap sentTimestamp = [0xfffffff0, 0xfffffff0]) &&
        decide (¬ Always Stamped s.log)) = true := by
    decide
  obtain ⟨s, hs, hp⟩ := exists_reachable_of_exec hrun
  rw [Bool.and_eq_true, decide_eq_true_eq, decide_eq_true_eq] at hp
  exact ⟨s, hs, hp⟩

end GbPlay.Tools.Bgb.Timestamps
