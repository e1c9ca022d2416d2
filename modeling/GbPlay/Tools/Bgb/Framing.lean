import GbPlay.Tools.Bgb.Server
import Mathlib.Data.List.Induction

/-!
# Packets and the results of `recv`

`run` in an environment that answers its callbacks and its sends and lets other
threads act, on a stream that `recv` returns in given pieces.  The environment
does not see how the stream is cut, but `run` takes every piece for a packet.
-/

namespace GbPlay.Tools.Bgb

open GbPlay.Library.Runs
open GbPlay.Server.Client (Byte)

namespace Framing

/-- What `run` meets with, apart from the stream. -/
structure Environment (ε : Type*) where
  given : Callback → Bool
  callback : ε → Callback → Byte → ε × Response
  /-- Whether a send of `run` succeeds. -/
  send : ε → Message → ε × Bool
  /-- What other threads do before the next test of the running flag. -/
  meanwhile : ε → List Label
  thread : ∀ e, ∀ l ∈ meanwhile e, l.isThread = true

def perform (given : Callback → Bool) (s : Server) (l : Label) : Server :=
  (step given s l).getD s

variable {ε : Type*} (env : Environment ε)

def callBack (x : ε × Server) : ε × Server :=
  match x.2.main with
  | .calling callback byte =>
      let (e, response) := env.callback x.1 callback byte
      (e, perform env.given x.2 (.callback response))
  | _ => x

def reply (x : ε × Server) : ε × Server :=
  match x.2.main with
  | .sending _ m _ =>
      let (e, ok) := env.send x.1 m
      (e, perform env.given x.2 (.send ok))
  | _ => x

def others (x : ε × Server) : ε × Server :=
  (x.1, (env.meanwhile x.1).foldl (perform env.given) x.2)

/-- Up to the next `recv`. -/
def settle (x : ε × Server) : ε × Server :=
  let (e, s) := others env (reply env (callBack env x))
  (e, perform env.given s .check)

/-- `recv` returns the data. -/
def turn (x : ε × Server) (data : List Byte) : ε × Server :=
  settle env (x.1, perform env.given x.2 (.recv data))

/-- The emulator connects. -/
def connect (e : ε) : ε × Server := settle env (e, perform env.given {} .accept)

/-- `recv` returns the pieces one after the other, as long as it is called. -/
def serve (x : ε × Server) : List (List Byte) → Server
  | [] => x.2
  | data :: rest => if x.2.main = .receiving then serve (turn env x data) rest else x.2

/-! ## What is observed -/

/-- Invocations of handlers and callbacks, and packets sent. -/
def isObserved : Action → Bool
  | .dispatched _ _ _ _ | .called _ _ | .sent _ _ => true
  | _ => false

def observed (s : Server) : List Action := s.log.filter isObserved

def receipt : Action → Option (List Byte)
  | .received data => some data
  | _ => none

/-- What `recv` has returned, in order. -/
def receipts (s : Server) : List (List Byte) := (s.log.filterMap receipt).reverse

/-- `recv` has returned whole packets only, or part of one that no handler is for. -/
def WholePackets (packets : List Packet) (s : Server) : Prop :=
  ∀ (i : Nat) (data : List Byte), (receipts s)[i]? = some data →
    data.length = packetSizeBytes ∨ ∃ p : Packet, packets[i]? = some p ∧ handlers p.b1 = none

/-! ## Runs of the server -/

section Runs

variable {env} {given : Callback → Bool} {s₀ s : Server} {x : ε × Server}

theorem perform_reachable (h : Reachable (Fires (step given)) s₀ s) (l : Label) :
    Reachable (Fires (step given)) s₀ (perform given s l) := by
  unfold perform
  cases hstep : step given s l with
  | none => exact h
  | some t =>
      obtain ⟨ls, hrun⟩ := h
      exact ⟨ls ++ [l], .snoc hrun hstep⟩

theorem settle_reachable (h : Reachable (Fires (step env.given)) s₀ x.2) :
    Reachable (Fires (step env.given)) s₀ (settle env x).2 := by
  have hcallBack : Reachable (Fires (step env.given)) s₀ (callBack env x).2 := by
    unfold callBack
    split
    · exact perform_reachable h _
    · exact h
  have hreply : Reachable (Fires (step env.given)) s₀ (reply env (callBack env x)).2 := by
    unfold reply
    split
    · exact perform_reachable hcallBack _
    · exact hcallBack
  have hfold (ls : List Label) {s : Server} (hs : Reachable (Fires (step env.given)) s₀ s) :
      Reachable (Fires (step env.given)) s₀ (ls.foldl (perform env.given) s) := by
    induction ls generalizing s with
    | nil => exact hs
    | cons l ls ih => exact ih (perform_reachable hs l)
  exact perform_reachable (hfold _ hreply) _

/-- What the environment drives is a run of the server. -/
theorem serve_reachable (h : Reachable (Fires (step env.given)) s₀ x.2)
    (pieces : List (List Byte)) :
    Reachable (Fires (step env.given)) s₀ (serve env x pieces) := by
  induction pieces generalizing x with
  | nil => exact h
  | cons data rest ih =>
      rw [serve]
      split
      · exact ih (settle_reachable (perform_reachable h _))
      · exact h

end Runs

/-! ## The log -/

/-- The log has grown, and nothing has been received. -/
def Grows (s s' : Server) : Prop :=
  ∃ actions, s'.log = actions ++ s.log ∧ ∀ a ∈ actions, receipt a = none

section Log

variable {given : Callback → Bool} {s s' t : Server} {data : List Byte}

theorem Grows.of_log_eq (h : s'.log = s.log) : Grows s s' := ⟨[], h, by simp⟩

theorem Grows.refl (s : Server) : Grows s s := .of_log_eq rfl

theorem Grows.trans (h : Grows s s') (h' : Grows s' t) : Grows s t := by
  obtain ⟨actions, heq, hactions⟩ := h
  obtain ⟨actions', heq', hactions'⟩ := h'
  refine ⟨actions' ++ actions, by simp [heq', heq], ?_⟩
  intro a ha
  rcases List.mem_append.mp ha with ha | ha
  · exact hactions' a ha
  · exact hactions a ha

theorem Grows.receipts (h : Grows s s') : receipts s' = receipts s := by
  obtain ⟨actions, heq, hactions⟩ := h
  have hnone : actions.filterMap receipt = [] := List.filterMap_eq_nil_iff.mpr hactions
  simp [Framing.receipts, heq, hnone]

theorem Grows.observed (h : Grows s s') : observed s <:+ observed s' := by
  obtain ⟨actions, heq, _⟩ := h
  rw [Framing.observed, Framing.observed, heq, List.filter_append]
  exact List.suffix_append _ _

theorem grows_leave (s : Server) : Grows s s.leave := ⟨[.left], rfl, by simp [receipt]⟩

theorem grows_sendPacket (s : Server) (sender : Sender) (m : Message) (i1 : UInt32) (ok : Bool) :
    Grows s (s.sendPacket sender m i1 ok) := by
  cases hreaches : s.reachesConnection m i1 with
  | false => exact .of_log_eq (Server.sendPacket_log_of_not_reaches sender ok hreaches)
  | true =>
      obtain ⟨p, _, hlog⟩ := Server.sendPacket_log_of_reaches sender ok hreaches
      refine ⟨[_], hlog, ?_⟩
      cases ok <;> simp [receipt]

def isRecv : Label → Bool
  | .recv _ => true
  | _ => false

theorem grows_step {l : Label} (hl : isRecv l = false) (h : step given s l = some s') :
    Grows s s' := by
  cases move_of_step h with
  | accept => exact .of_log_eq rfl
  | goOn => exact .of_log_eq rfl
  | stopped => exact grows_leave s
  | receive => cases hl
  | recvError => exact grows_leave s
  | raise => exact grows_leave s
  | silence => exact .of_log_eq rfl
  | answer => exact .of_log_eq rfl
  | send => exact (grows_sendPacket s _ _ _ _).trans (.of_log_eq rfl)
  | stop => exact .of_log_eq rfl
  | sendMasterByte => exact .of_log_eq rfl
  | threadSend => exact (grows_sendPacket s _ _ _ _).trans (.of_log_eq rfl)

theorem grows_perform {l : Label} (hl : isRecv l = false) (s : Server) :
    Grows s (perform given s l) := by
  unfold perform
  cases h : step given s l with
  | none => exact .refl s
  | some t => exact grows_step hl h

theorem isRecv_of_isThread {l : Label} (h : l.isThread = true) : isRecv l = false := by
  cases l <;> first | rfl | cases h

theorem grows_foldl {ls : List Label} (hls : ∀ l ∈ ls, l.isThread = true) (s : Server) :
    Grows s (ls.foldl (perform given) s) := by
  induction ls generalizing s with
  | nil => exact .refl s
  | cons l ls ih =>
      have hl := isRecv_of_isThread (hls l List.mem_cons_self)
      exact (grows_perform hl s).trans (ih (fun k hk => hls k (List.mem_cons_of_mem l hk)) _)

theorem grows_settle (env : Environment ε) (x : ε × Server) : Grows x.2 (settle env x).2 := by
  have hcallBack : Grows x.2 (callBack env x).2 := by
    unfold callBack
    split
    · exact grows_perform rfl x.2
    · exact .refl _
  have hreply : Grows (callBack env x).2 (reply env (callBack env x)).2 := by
    unfold reply
    split
    · exact grows_perform rfl _
    · exact .refl _
  have hothers : Grows (reply env (callBack env x)).2 (others env (reply env (callBack env x))).2 :=
    grows_foldl (env.thread _) _
  exact ((hcallBack.trans hreply).trans hothers).trans (grows_perform rfl _)

end Log

/-! ## One piece of the stream -/

section Piece

variable {given : Callback → Bool} {s : Server} {data : List Byte} {p : Packet}

theorem perform_recv (hmain : s.main = .receiving) (hlen : data.length ≤ packetSizeBytes) :
    perform given s (.recv data) = s.receive given data := by
  simp [perform, step, hmain, hlen]

theorem grows_dispatch (given : Callback → Bool) (s : Server) (h : unpack data = some p) :
    Grows s (s.dispatch given p) := by
  obtain ⟨actions, hactions, hcases⟩ := Server.dispatch_cases given s h
  have hnone : ∀ a ∈ actions, receipt a = none := by
    intro a ha
    have hhandling := hactions a ha
    cases a <;> first | rfl | cases hhandling
  rcases hcases with ⟨_, heq⟩ | ⟨_, main, heq, _⟩
  · rw [heq]
    have hgrows : Grows s { s with log := actions ++ s.log } := ⟨actions, rfl, hnone⟩
    exact hgrows.trans (grows_leave _)
  · rw [heq]
    exact ⟨actions, rfl, hnone⟩

/-- `recv` has returned once more. -/
theorem receipts_receive (given : Callback → Bool) (s : Server) (data : List Byte) :
    receipts (s.receive given data) = receipts s ++ [data] := by
  cases hunpack : unpack data with
  | none =>
      rw [Server.receive_of_not_unpack hunpack, (grows_leave _).receipts]
      simp [receipts, receipt]
  | some p =>
      have hlog : (s.unpacked data p).log.filterMap receipt = data :: s.log.filterMap receipt := by
        rw [Server.log_unpacked]
        rfl
      rw [Server.receive_of_unpack hunpack, (grows_dispatch given _ hunpack).receipts, receipts,
        hlog, List.reverse_cons, receipts]

/-- The server can make nothing of the data. -/
theorem receive_useless (given : Callback → Bool) (s : Server)
    (h : ∀ p, unpack data = some p → handlers p.b1 = none) :
    (s.receive given data).main = .returned ∧ observed (s.receive given data) = observed s := by
  cases hunpack : unpack data with
  | none =>
      rw [Server.receive_of_not_unpack hunpack]
      exact ⟨rfl, by simp [observed, Server.leave, isObserved]⟩
  | some p =>
      rw [Server.receive_of_unpack hunpack, Server.dispatch, h p hunpack]
      exact ⟨rfl, by simp [observed, Server.leave, Server.log_unpacked, isObserved]⟩

/-- A packet that there is a handler for. -/
theorem observed_receive (given : Callback → Bool) (s : Server) {h : Handler}
    (hunpack : unpack data = some p) (hhandler : handlers p.b1 = some h) :
    ∃ actions, observed (s.receive given data) =
      actions ++ .dispatched h p.b2 p.b3 p.b4 :: observed s := by
  have hobserved : observed (s.unpacked data p) = observed s := by
    simp [observed, Server.log_unpacked, isObserved]
  rw [Server.receive_of_unpack hunpack, ← hobserved]
  simp only [Server.dispatch, hhandler]
  cases handle given h p.b2 p.b3 p.b4 with
  | raises => exact ⟨[], rfl⟩
  | returns => exact ⟨[], rfl⟩
  | sends m => exact ⟨[], rfl⟩
  | calls callback byte => exact ⟨[.called callback byte], rfl⟩

/-- When `run` has left its loop the other threads send nothing any more. -/
theorem perform_returned (given : Callback → Bool) {l : Label} (hmain : s.main = .returned)
    (hl : l.isThread = true) :
    (perform given s l).main = .returned ∧ observed (perform given s l) = observed s := by
  cases l with
  | stop => exact ⟨hmain, rfl⟩
  | sendMasterByte data => exact ⟨hmain, rfl⟩
  | threadSend i ok =>
      unfold perform
      cases hthread : s.threads[i]? with
      | none => simp [step, hthread, hmain]
      | some call =>
          obtain ⟨m, i1⟩ := call
          cases ok with
          | true => simp [step, hthread, hmain]
          | false =>
              simp only [step, hthread, Bool.false_and, Bool.false_eq_true, if_false,
                Option.getD_some, Server.sendPacket_main]
              refine ⟨hmain, ?_⟩
              cases hreaches : s.reachesConnection m i1 with
              | false =>
                  simp [observed, Server.sendPacket_log_of_not_reaches .thread false hreaches]
              | true =>
                  obtain ⟨p, _, hlog⟩ := Server.sendPacket_log_of_reaches .thread false hreaches
                  simp [observed, hlog, isObserved]
  | accept | check | recv data | recvError | callback response | send ok => cases hl

theorem foldl_returned (given : Callback → Bool) {ls : List Label}
    (hls : ∀ l ∈ ls, l.isThread = true) (hmain : s.main = .returned) :
    (ls.foldl (perform given) s).main = .returned ∧
      observed (ls.foldl (perform given) s) = observed s := by
  induction ls generalizing s with
  | nil => exact ⟨hmain, rfl⟩
  | cons l ls ih =>
      obtain ⟨hmain', hobserved⟩ := perform_returned given hmain
        (hls l List.mem_cons_self)
      obtain ⟨hmain'', hobserved'⟩ := ih (fun k hk => hls k (List.mem_cons_of_mem l hk)) hmain'
      exact ⟨hmain'', hobserved'.trans hobserved⟩

theorem settle_returned (env : Environment ε) (x : ε × Server) (hmain : x.2.main = .returned) :
    (settle env x).2.main = .returned ∧ observed (settle env x).2 = observed x.2 := by
  have hcallBack : callBack env x = x := by simp [callBack, hmain]
  have hreply : reply env x = x := by simp [reply, hmain]
  obtain ⟨hothers, hobserved⟩ := foldl_returned env.given (env.thread x.1) hmain
  have hsettle : (settle env x).2 =
      perform env.given ((env.meanwhile x.1).foldl (perform env.given) x.2) .check := by
    rw [settle, hcallBack, hreply]
    rfl
  have hcheck : perform env.given ((env.meanwhile x.1).foldl (perform env.given) x.2) .check =
      (env.meanwhile x.1).foldl (perform env.given) x.2 := by
    simp [perform, step, hothers]
  rw [hsettle, hcheck]
  exact ⟨hothers, hobserved⟩

theorem observed_perform_recv (given : Callback → Bool) (s : Server) (data : List Byte) :
    observed s <:+ observed (perform given s (.recv data)) := by
  have hreceive : observed s <:+ observed (s.receive given data) := by
    cases hunpack : unpack data with
    | none =>
        have hnone : ∀ p, unpack data = some p → handlers p.b1 = none := by simp [hunpack]
        obtain ⟨_, hsame⟩ := receive_useless given s hnone
        exact hsame ▸ List.suffix_rfl
    | some p =>
        have hobserved : observed (s.unpacked data p) = observed s := by
          simp [observed, Server.log_unpacked, isObserved]
        rw [Server.receive_of_unpack hunpack, ← hobserved]
        exact (grows_dispatch given _ hunpack).observed
  unfold perform
  cases hstep : step given s (.recv data) with
  | none => exact List.suffix_rfl
  | some t =>
      simp only [step] at hstep
      split at hstep
      · split at hstep <;> cases hstep
        exact hreceive
      · cases hstep

end Piece

/-! ## The whole stream -/

section Stream

variable {x : ε × Server} {data : List Byte} {p : Packet} {pieces : List (List Byte)}
  {packets before : List Packet}

theorem observed_serve (env : Environment ε) (x : ε × Server) (pieces : List (List Byte)) :
    observed x.2 <:+ observed (serve env x pieces) := by
  induction pieces generalizing x with
  | nil => exact List.suffix_rfl
  | cons data rest ih =>
      rw [serve]
      split
      · have hrecv := observed_perform_recv env.given x.2 data
        have hsettle := (grows_settle env (x.1, perform env.given x.2 (.recv data))).observed
        exact (hrecv.trans hsettle).trans (ih _)
      · exact List.suffix_rfl

theorem receipts_turn (env : Environment ε) (hmain : x.2.main = .receiving)
    (hlen : data.length ≤ packetSizeBytes) :
    receipts (turn env x data).2 = receipts x.2 ++ [data] := by
  rw [turn, (grows_settle env _).receipts, perform_recv hmain hlen, receipts_receive]

/-- The server can make nothing of the data, and the run is over. -/
theorem serve_useless (env : Environment ε) (hmain : x.2.main = .receiving)
    (hlen : data.length ≤ packetSizeBytes)
    (huseless : ∀ p, unpack data = some p → handlers p.b1 = none) (rest : List (List Byte)) :
    serve env x (data :: rest) = (turn env x data).2 ∧
      observed (serve env x (data :: rest)) = observed x.2 := by
  obtain ⟨hreturned, hobserved⟩ := receive_useless env.given x.2 huseless
  rw [← perform_recv hmain hlen] at hreturned hobserved
  obtain ⟨hover, hsettled⟩ :=
    settle_returned env (x.1, perform env.given x.2 (.recv data)) hreturned
  have hserve : serve env x (data :: rest) = (turn env x data).2 := by
    rw [serve, if_pos hmain]
    have hnot : (turn env x data).2.main ≠ .receiving := by
      rw [turn, hover]
      simp
    cases rest with
    | nil => rfl
    | cons _ _ => rw [serve, if_neg hnot]
  exact ⟨hserve, by rw [hserve, turn, hsettled, hobserved]⟩

theorem serve_over (env : Environment ε) (hmain : x.2.main ≠ .receiving)
    (pieces : List (List Byte)) : serve env x pieces = x.2 := by
  cases pieces with
  | nil => rfl
  | cons data rest => rw [serve, if_neg hmain]

theorem wholePackets_of_receipts {s : Server} (h : receipts s = before.map Packet.bytes)
    (packets : List Packet) : WholePackets packets s := by
  intro i data hdata
  left
  rw [h] at hdata
  obtain ⟨p, _, rfl⟩ := List.mem_map.mp (List.mem_of_getElem? hdata)
  rfl

/-- The first piece is only a part of the first packet. -/
theorem observed_cut_iff (env : Environment ε) (hmain : x.2.main = .receiving)
    (hreceipts : receipts x.2 = before.map Packet.bytes) (hlen : data.length ≤ packetSizeBytes)
    (hcut : data.length ≠ packetSizeBytes) (rest : List (List Byte)) (packets : List Packet) :
    observed (serve env x (data :: rest)) =
        observed (serve env x (p.bytes :: packets.map Packet.bytes)) ↔
      WholePackets (before ++ p :: packets) (serve env x (data :: rest)) := by
  have hunpack : ∀ q, unpack data = some q → handlers q.b1 = none :=
    fun q hq => absurd (length_of_unpack hq) hcut
  obtain ⟨hserve, hobserved⟩ := serve_useless env hmain hlen hunpack rest
  have hreceipts' : receipts (serve env x (data :: rest)) = before.map Packet.bytes ++ [data] := by
    rw [hserve, receipts_turn env hmain hlen, hreceipts]
  rw [hobserved]
  cases hhandler : handlers p.b1 with
  | none =>
      have huseless : ∀ q, unpack p.bytes = some q → handlers q.b1 = none := by
        intro q hq
        rw [unpack_bytes, Option.some.injEq] at hq
        rw [← hq, hhandler]
      obtain ⟨_, hobserved'⟩ :=
        serve_useless env hmain (Nat.le_of_eq (length_bytes p)) huseless (packets.map Packet.bytes)
      refine iff_of_true hobserved'.symm fun i d hd => ?_
      rw [hreceipts'] at hd
      by_cases hi : i < before.length
      · left
        rw [List.getElem?_append_left (by simpa using hi)] at hd
        obtain ⟨q, _, rfl⟩ := List.mem_map.mp (List.mem_of_getElem? hd)
        rfl
      · right
        rw [List.getElem?_append_right (by simpa using hi)] at hd
        have hlast : i - before.length = 0 := by
          have := (List.getElem?_eq_some_iff.mp hd).1
          simp at this
          omega
        refine ⟨p, ?_, hhandler⟩
        rw [List.getElem?_append_right (by simpa using hi), hlast]
        rfl
  | some h =>
      -- the whole packet is dispatched, its part is not
      apply iff_of_false
      · intro heq
        obtain ⟨actions, hreceived⟩ :=
          observed_receive env.given x.2 (unpack_bytes p) hhandler
        rw [← perform_recv hmain (Nat.le_of_eq (length_bytes p))] at hreceived
        have hsettle :=
          (grows_settle env (x.1, perform env.given x.2 (.recv p.bytes))).observed
        have hserve' := observed_serve env (turn env x p.bytes) (packets.map Packet.bytes)
        have hlength := (hsettle.trans hserve').length_le
        rw [serve, if_pos hmain] at heq
        rw [hreceived, ← heq] at hlength
        simp at hlength
        omega
      · intro hwhole
        rcases hwhole before.length data (by simp [hreceipts']) with hlength | ⟨q, hq, hnone⟩
        · exact hcut hlength
        · have hqp : p = q := by simpa using hq
          rw [← hqp, hhandler] at hnone
          cases hnone

/-- By induction on the pieces: as long as they are whole packets, the two runs are one. -/
theorem observed_serve_iff (env : Environment ε) (hmain : x.2.main = .receiving)
    (hreceipts : receipts x.2 = before.map Packet.bytes)
    (hpieces : ∀ data ∈ pieces, data ≠ [] ∧ data.length ≤ packetSizeBytes)
    (hstream : pieces.flatten = (packets.map Packet.bytes).flatten) :
    observed (serve env x pieces) = observed (serve env x (packets.map Packet.bytes)) ↔
      WholePackets (before ++ packets) (serve env x pieces) := by
  induction pieces generalizing packets before x with
  | nil =>
      cases packets with
      | nil => exact iff_of_true rfl (wholePackets_of_receipts hreceipts _)
      | cons p packets => simp [Packet.bytes] at hstream
  | cons data rest ih =>
      obtain ⟨hne, hlen⟩ := hpieces data List.mem_cons_self
      have hrest : ∀ d ∈ rest, d ≠ [] ∧ d.length ≤ packetSizeBytes :=
        fun d hd => hpieces d (List.mem_cons_of_mem data hd)
      cases packets with
      | nil => exact absurd (List.flatten_eq_nil_iff.mp hstream data List.mem_cons_self) hne
      | cons p packets =>
          by_cases hwhole : data.length = packetSizeBytes
          · rw [List.map_cons, List.flatten_cons, List.flatten_cons] at hstream
            obtain ⟨rfl, hstream'⟩ := List.append_inj hstream (hwhole.trans (length_bytes p).symm)
            have hreceipts' : receipts (turn env x p.bytes).2 =
                (before ++ [p]).map Packet.bytes := by
              rw [receipts_turn env hmain hlen, hreceipts, List.map_append]
              rfl
            rw [List.map_cons, serve, if_pos hmain, serve, if_pos hmain]
            by_cases hmain' : (turn env x p.bytes).2.main = .receiving
            · have hih := ih hmain' hreceipts' hrest hstream'
              rwa [List.append_assoc, List.singleton_append] at hih
            · rw [serve_over env hmain', serve_over env hmain']
              exact iff_of_true rfl (wholePackets_of_receipts hreceipts' _)
          · exact observed_cut_iff env hmain hreceipts hlen hwhole rest packets

end Stream

/-! ## The contract -/

theorem receipts_connect (env : Environment ε) (e : ε) : receipts (connect env e).2 = [] := by
  rw [connect, (grows_settle env _).receipts, (grows_perform rfl _).receipts]
  rfl

/-- However the stream of packets is cut into the results of `recv`, the same handlers
and callbacks are invoked and the same packets are sent as when every `recv` returns a
whole packet, if and only if every `recv` does return a whole packet, or a part of one
that there is no handler for. -/
theorem framing_iff (env : Environment ε) (e : ε) {packets : List Packet}
    {pieces : List (List Byte)}
    (hpieces : ∀ data ∈ pieces, 1 ≤ data.length ∧ data.length ≤ packetSizeBytes)
    (hstream : pieces.flatten = (packets.map Packet.bytes).flatten) :
    observed (serve env (connect env e) pieces) =
        observed (serve env (connect env e) (packets.map Packet.bytes)) ↔
      WholePackets packets (serve env (connect env e) pieces) := by
  have hreceipts : receipts (connect env e).2 = ([] : List Packet).map Packet.bytes :=
    receipts_connect env e
  by_cases hmain : (connect env e).2.main = .receiving
  · refine observed_serve_iff env hmain hreceipts (fun data hdata => ?_) hstream
    obtain ⟨hpos, hle⟩ := hpieces data hdata
    exact ⟨List.ne_nil_of_length_pos hpos, hle⟩
  · rw [serve_over env hmain, serve_over env hmain]
    exact iff_of_true rfl (wholePackets_of_receipts hreceipts _)

/-- No callbacks, no other threads, and every send succeeds. -/
def quiet : Environment Unit where
  given := fun _ => false
  callback := fun e _ _ => (e, .returns none)
  send := fun e _ => (e, true)
  meanwhile := fun _ => []
  thread := by simp

def statusOfEmulator : Packet := ⟨108, 1, 0, 0, 100⟩

/-- A packet of a type that the server does not know. -/
def unknownPacket : Packet := ⟨200, 0, 0, 0, 101⟩

/-- The packet that is cut would not have been handled anyway. -/
theorem framing_iff_unknown :
    observed (serve quiet (connect quiet ()) [statusOfEmulator.bytes, unknownPacket.bytes.take 3,
        unknownPacket.bytes.drop 3]) =
      observed (serve quiet (connect quiet ())
        ([statusOfEmulator, unknownPacket].map Packet.bytes)) := by
  refine (framing_iff quiet () (by decide) (by decide)).mpr fun i data hdata => ?_
  have hreceipts : receipts (serve quiet (connect quiet ()) [statusOfEmulator.bytes,
      unknownPacket.bytes.take 3, unknownPacket.bytes.drop 3]) =
        [statusOfEmulator.bytes, unknownPacket.bytes.take 3] := by
    decide
  rw [hreceipts] at hdata
  obtain _ | _ | i := i
  · cases hdata
    exact .inl rfl
  · exact .inr ⟨unknownPacket, rfl, by decide⟩
  · cases hdata

/-- A status packet that arrives in two pieces is not answered. -/
theorem framing_cut :
    [statusOfEmulator.bytes.take 3, statusOfEmulator.bytes.drop 3].flatten =
        ([statusOfEmulator].map Packet.bytes).flatten ∧
      observed (serve quiet (connect quiet ()) [statusOfEmulator.bytes.take 3,
          statusOfEmulator.bytes.drop 3]) ≠
        observed (serve quiet (connect quiet ()) ([statusOfEmulator].map Packet.bytes)) := by
  decide

end Framing

end GbPlay.Tools.Bgb
