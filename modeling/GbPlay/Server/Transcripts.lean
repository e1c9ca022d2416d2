import GbPlay.Server.Script

/-!
# What a client script exchanges

The exchanges of `waitForByte` and `sendBuffer`, and from them the bytes sent by
a callback that waits for the client before each of two blocks of data.
-/

namespace GbPlay.Server.Transcripts

open GbPlay.Library GbPlay.Server.Client GbPlay.Server.Script

variable {ops q : List ClientOp} {xs : List (Byte × Byte)}

/-- Exchanges of `waitForByte pollValue waitValue` that are not the last one. -/
def Polls (pollValue waitValue : Byte) (xs : List (Byte × Byte)) : Prop :=
  ∀ x ∈ xs, x.1 = pollValue ∧ x.2 ≠ waitValue

theorem Polls.sent {pollValue waitValue : Byte} (h : Polls pollValue waitValue xs) :
    xs.map Prod.fst = List.replicate xs.length pollValue := by
  rw [List.eq_replicate_iff]
  refine ⟨by simp, fun b hb => ?_⟩
  obtain ⟨x, hx, rfl⟩ := List.mem_map.mp hb
  exact (h x hx).1

/-- `waitForByte` polls until the value it waits for arrives. -/
theorem transcript_waitForByte {pollValue waitValue : Byte}
    (h : script.Transcript (.waitForByte pollValue waitValue :: ops) xs q) :
    (Polls pollValue waitValue xs ∧ q = .waitForByte pollValue waitValue :: ops) ∨
      ∃ ys zs, xs = ys ++ (pollValue, waitValue) :: zs ∧ Polls pollValue waitValue ys ∧
        script.Transcript ops zs q := by
  induction xs with
  | nil => exact .inl ⟨by simp [Polls], Dialogue.Transcript.nil_iff.mp h⟩
  | cons x xs ih =>
      obtain ⟨a, b⟩ := x
      obtain ⟨hnext, hrest⟩ := Dialogue.Transcript.cons_iff.mp h
      obtain rfl : pollValue = a := by simpa [nextByte] using hnext
      simp only [script_reply, afterReply] at hrest
      split at hrest
      case isTrue hne =>
          have hfirst : ∀ ys, Polls pollValue waitValue ys →
              Polls pollValue waitValue ((pollValue, b) :: ys) := by
            intro ys hys y hy
            rcases List.mem_cons.mp hy with rfl | hy
            · exact ⟨rfl, hne⟩
            · exact hys y hy
          rcases ih hrest with ⟨hpolls, hq⟩ | ⟨ys, zs, rfl, hpolls, hzs⟩
          · exact .inl ⟨hfirst xs hpolls, hq⟩
          · exact .inr ⟨(pollValue, b) :: ys, zs, rfl, hfirst ys hpolls, hzs⟩
      case isFalse heq =>
          obtain rfl : b = waitValue := by simpa using heq
          exact .inr ⟨[], xs, rfl, by simp [Polls], hrest⟩

/-- `sendBuffer` sends its bytes in order. -/
theorem transcript_sendBuffer {buf : List Byte} (hbuf : buf ≠ [])
    (h : script.Transcript (.sendBuffer buf :: ops) xs q) :
    (∃ rest, rest ≠ [] ∧ buf = xs.map Prod.fst ++ rest ∧ q = .sendBuffer rest :: ops) ∨
      ∃ ys zs, xs = ys ++ zs ∧ ys.map Prod.fst = buf ∧ script.Transcript ops zs q := by
  induction xs generalizing buf with
  | nil => exact .inl ⟨buf, hbuf, by simp, Dialogue.Transcript.nil_iff.mp h⟩
  | cons x xs ih =>
      obtain ⟨a, b⟩ := x
      obtain ⟨hnext, hrest⟩ := Dialogue.Transcript.cons_iff.mp h
      match buf with
      | [] => exact absurd rfl hbuf
      | [c] =>
          obtain rfl : c = a := by simpa [nextByte] using hnext
          exact .inr ⟨[(c, b)], xs, rfl, rfl, hrest⟩
      | c :: d :: buf =>
          obtain rfl : c = a := by simpa [nextByte] using hnext
          rcases ih (List.cons_ne_nil d buf) hrest with
            ⟨rest, hne, heq, hq⟩ | ⟨ys, zs, rfl, hys, hzs⟩
          · exact .inl ⟨rest, hne, by simp [heq], hq⟩
          · exact .inr ⟨(c, b) :: ys, zs, rfl, by simp [hys], hzs⟩

/-! ## The first reply of a kind -/

/-- Among the first `a` replies `v` is the last one and no other. -/
def FirstAt (v : Byte) (a : Nat) (replies : List Byte) : Prop :=
  ∀ i < a, ∀ r, replies[i]? = some r → (r = v ↔ i + 1 = a)

theorem firstAt_polls {p v : Byte} (h : Polls p v xs) :
    FirstAt v (xs.length + 1) (xs.map Prod.snd) := by
  intro i _ r hr
  obtain ⟨x, hx, rfl⟩ := List.mem_map.mp (List.mem_of_getElem? hr)
  have hlt : i < xs.length := by simpa using (List.getElem?_eq_some_iff.mp hr).1
  constructor
  · exact fun heq => absurd heq (h x hx).2
  · omega

theorem firstAt_found {p v : Byte} (h : Polls p v xs) (rest : List Byte) :
    FirstAt v (xs.length + 1) (xs.map Prod.snd ++ v :: rest) := by
  intro i hi r hr
  rcases Nat.lt_succ_iff_lt_or_eq.mp hi with hlt | rfl
  · rw [List.getElem?_append_left (by simpa using hlt)] at hr
    exact firstAt_polls h i hi r hr
  · rw [List.getElem?_append_right (by simp)] at hr
    simp only [List.length_map, Nat.sub_self, List.getElem?_cons_zero, Option.some.injEq] at hr
    simp [hr]

theorem FirstAt.append {v : Byte} {a : Nat} {replies : List Byte} (h : FirstAt v a replies)
    (hle : a ≤ replies.length) (more : List Byte) : FirstAt v a (replies ++ more) := by
  intro i hi r hr
  rw [List.getElem?_append_left (Nat.lt_of_lt_of_le hi hle)] at hr
  exact h i hi r hr

theorem firstAt_nil (v : Byte) (a : Nat) : FirstAt v a [] := by
  intro i _ r hr
  simp at hr

/-! ## Two blocks of data -/

/-- Two blocks of data, each after polls with `p`. -/
def dataStream (p : Byte) (G P : List Byte) (a b : Nat) : List Byte :=
  List.replicate a p ++ G ++ List.replicate b p ++ P

theorem length_dataStream (p : Byte) (G P : List Byte) (a b : Nat) :
    (dataStream p G P a b).length = a + G.length + b + P.length := by
  simp [dataStream, Nat.add_assoc]

/-- A byte sent and not answered yet, if there is one. -/
def Unanswered (q : List ClientOp) (out : List Byte) : Prop :=
  out = [] ∨ ∃ x, nextByte q = some x ∧ out = [x]

/-- The exchanges `xs`, and a byte not answered yet, are the beginning of a stream in
which each block follows the first answer `v` to its polls. -/
structure Streams (p v : Byte) (G P : List Byte) (xs : List (Byte × Byte)) (q : List ClientOp)
    (a b : Nat) : Prop where
  one_le : 1 ≤ a ∧ 1 ≤ b
  sent : ∀ out, Unanswered q out → xs.map Prod.fst ++ out <+: dataStream p G P a b
  first : FirstAt v a (xs.map Prod.snd)
  second : FirstAt v b ((xs.map Prod.snd).drop (a + G.length))
  complete : nextByte q = none → xs.map Prod.fst = dataStream p G P a b

theorem Unanswered.length_le {out : List Byte} (h : Unanswered q out) : out.length ≤ 1 := by
  rcases h with rfl | ⟨x, _, rfl⟩ <;> simp

theorem Unanswered.eq_nil {out : List Byte} (h : Unanswered q out) (hq : nextByte q = none) :
    out = [] := by
  rcases h with rfl | ⟨x, hx, _⟩
  · rfl
  · simp [hq] at hx

theorem unanswered_waitForByte {p v : Byte} {out : List Byte}
    (h : Unanswered (.waitForByte p v :: ops) out) : out <+: [p] := by
  rcases h with rfl | ⟨x, hx, rfl⟩
  · simp
  · obtain rfl : p = x := by simpa [nextByte] using hx
    simp

theorem unanswered_sendBuffer {rest out : List Byte} (hrest : rest ≠ [])
    (h : Unanswered (.sendBuffer rest :: ops) out) : out <+: rest := by
  rcases h with rfl | ⟨x, hx, rfl⟩
  · simp
  · obtain ⟨y, rest', rfl⟩ := List.exists_cons_of_ne_nil hrest
    obtain rfl : y = x := by simpa [nextByte] using hx
    simp

/-- A callback that sends one block. -/
theorem sent_of_sendBuffer {buf : List Byte} (hbuf : buf ≠ [])
    (h : script.Transcript [.sendBuffer buf] xs q) {out : List Byte} (hout : Unanswered q out) :
    xs.map Prod.fst ++ out <+: buf ∧ (nextByte q = none → xs.map Prod.fst = buf) := by
  rcases transcript_sendBuffer hbuf h with ⟨rest, hrest, heq, rfl⟩ | ⟨ys, zs, rfl, hys, hzs⟩
  · rw [heq, List.prefix_append_right_inj]
    refine ⟨unanswered_sendBuffer hrest hout, fun hnone => ?_⟩
    obtain ⟨x, rest', rfl⟩ := List.exists_cons_of_ne_nil hrest
    simp [nextByte] at hnone
  · obtain rfl := hzs.eq_nil_of_finished rfl
    obtain rfl := Dialogue.Transcript.nil_iff.mp hzs
    obtain rfl := hout.eq_nil rfl
    simp [hys]

section TwoBlocks

variable {p v : Byte} {G P : List Byte}

/-- The polls before the first block. -/
theorem streams_firstWait (h : Polls p v xs) (hq : q = .waitForByte p v :: ops) :
    Streams p v G P xs q (xs.length + 1) 1 where
  one_le := by omega
  sent := by
    rintro out hout
    subst hq
    have hp := unanswered_waitForByte hout
    rw [h.sent, dataStream, List.replicate_succ', List.append_assoc, List.append_assoc,
      List.append_assoc, List.prefix_append_right_inj]
    exact hp.trans (List.prefix_append _ _)
  first := firstAt_polls h
  second := by
    rw [List.drop_eq_nil_of_le (by simp; omega)]
    exact firstAt_nil v 1
  complete := by simp [hq, nextByte]

/-- The exchanges from the first answer on do not disturb the count of the polls. -/
theorem first_of_found {ys zs : List (Byte × Byte)} (h : Polls p v ys) :
    FirstAt v (ys.length + 1) ((ys ++ (p, v) :: zs).map Prod.snd) := by
  rw [List.map_append, List.map_cons]
  exact firstAt_found h _

theorem sent_of_found {ys zs : List (Byte × Byte)} (h : Polls p v ys) :
    (ys ++ (p, v) :: zs).map Prod.fst =
      List.replicate (ys.length + 1) p ++ zs.map Prod.fst := by
  rw [List.map_append, h.sent, List.map_cons, List.replicate_succ', List.append_assoc]
  rfl

theorem drop_of_found {ys zs : List (Byte × Byte)} (n : Nat) :
    ((ys ++ (p, v) :: zs).map Prod.snd).drop (ys.length + 1 + n) = (zs.map Prod.snd).drop n := by
  have hsplit : (ys ++ (p, v) :: zs).map Prod.snd =
      (ys.map Prod.snd ++ [v]) ++ zs.map Prod.snd := by simp
  rw [← List.drop_drop, hsplit, List.drop_left' (by simp)]

/-- The first block. -/
theorem streams_firstBlock {ys zs : List (Byte × Byte)} {rest : List Byte} (h : Polls p v ys)
    (hrest : rest ≠ []) (hG : G = zs.map Prod.fst ++ rest) (hq : q = .sendBuffer rest :: ops) :
    Streams p v G P (ys ++ (p, v) :: zs) q (ys.length + 1) 1 where
  one_le := by omega
  sent := by
    rintro out hout
    subst hq
    have hp := unanswered_sendBuffer hrest hout
    rw [sent_of_found h, dataStream, hG, List.append_assoc, List.append_assoc, List.append_assoc,
      List.append_assoc, List.prefix_append_right_inj, List.prefix_append_right_inj]
    exact hp.trans (List.prefix_append _ _)
  first := first_of_found h
  second := by
    rw [drop_of_found, List.drop_eq_nil_of_le (by simp [hG])]
    exact firstAt_nil v 1
  complete := by
    obtain ⟨x, rest', rfl⟩ := List.exists_cons_of_ne_nil hrest
    simp [hq, nextByte]

section SecondGroup

variable {ys gs : List (Byte × Byte)} (h : Polls p v ys) (hG : gs.map Prod.fst = G)

include hG

theorem drop_second {zs : List (Byte × Byte)} :
    ((ys ++ (p, v) :: (gs ++ zs)).map Prod.snd).drop (ys.length + 1 + G.length) =
      zs.map Prod.snd := by
  rw [drop_of_found, ← hG]
  simp

include h

theorem sent_second {zs : List (Byte × Byte)} :
    (ys ++ (p, v) :: (gs ++ zs)).map Prod.fst =
      List.replicate (ys.length + 1) p ++ (G ++ zs.map Prod.fst) := by
  rw [sent_of_found h, List.map_append, hG]

/-- The polls before the second block. -/
theorem streams_secondWait {ws : List (Byte × Byte)} (hws : Polls p v ws)
    (hq : q = .waitForByte p v :: ops) :
    Streams p v G P (ys ++ (p, v) :: (gs ++ ws)) q (ys.length + 1) (ws.length + 1) where
  one_le := by omega
  sent := by
    rintro out hout
    subst hq
    have hp := unanswered_waitForByte hout
    rw [sent_second h hG, hws.sent, dataStream, List.replicate_succ' (n := ws.length),
      List.append_assoc, List.append_assoc, List.append_assoc, List.append_assoc,
      List.append_assoc, List.prefix_append_right_inj, List.prefix_append_right_inj,
      List.prefix_append_right_inj]
    exact hp.trans (List.prefix_append _ _)
  first := first_of_found h
  second := by
    rw [drop_second hG]
    exact firstAt_polls hws
  complete := by simp [hq, nextByte]

/-- The second block, up to its last byte. -/
theorem streams_secondBlock {ws us : List (Byte × Byte)} {rest : List Byte} (hws : Polls p v ws)
    (hP : P = us.map Prod.fst ++ rest)
    (hq : (rest ≠ [] ∧ q = [.sendBuffer rest]) ∨ (rest = [] ∧ q = [])) :
    Streams p v G P (ys ++ (p, v) :: (gs ++ (ws ++ (p, v) :: us))) q (ys.length + 1)
      (ws.length + 1) where
  one_le := by omega
  sent := by
    rintro out hout
    have hp : out <+: rest := by
      rcases hq with ⟨hrest, rfl⟩ | ⟨rfl, rfl⟩
      · exact unanswered_sendBuffer hrest hout
      · rcases hout with rfl | ⟨x, hx, _⟩
        · exact List.prefix_rfl
        · simp [nextByte] at hx
    rw [sent_second h hG, sent_of_found hws, dataStream, hP]
    simp only [List.append_assoc, List.prefix_append_right_inj]
    exact hp
  first := first_of_found h
  second := by
    rw [drop_second hG]
    exact first_of_found hws
  complete := by
    rcases hq with ⟨hrest, rfl⟩ | ⟨rfl, rfl⟩
    · obtain ⟨x, rest', rfl⟩ := List.exists_cons_of_ne_nil hrest
      simp [nextByte]
    · intro _
      rw [sent_second h hG, sent_of_found hws, dataStream, hP]
      simp

end SecondGroup

/-- A callback that sends two blocks, each once the client has answered `v`. -/
theorem streams_of_transcript (hG : G ≠ []) (hP : P ≠ [])
    (h : script.Transcript
      [.waitForByte p v, .sendBuffer G, .waitForByte p v, .sendBuffer P] xs q) :
    ∃ a b, Streams p v G P xs q a b := by
  rcases transcript_waitForByte h with ⟨hpolls, hq⟩ | ⟨ys, zs, rfl, hys, hzs⟩
  · exact ⟨_, _, streams_firstWait hpolls hq⟩
  rcases transcript_sendBuffer hG hzs with ⟨rest, hrest, hfirst, hq⟩ | ⟨gs, zs', rfl, hgs, hzs'⟩
  · exact ⟨_, _, streams_firstBlock hys hrest hfirst hq⟩
  rcases transcript_waitForByte hzs' with ⟨hpolls, hq⟩ | ⟨ws, us, rfl, hws, hus⟩
  · exact ⟨_, _, streams_secondWait hys hgs hpolls hq⟩
  rcases transcript_sendBuffer hP hus with ⟨rest, hrest, hsecond, hq⟩ | ⟨ps, us', rfl, hps, hus'⟩
  · exact ⟨_, _, streams_secondBlock hys hgs hws hsecond (.inl ⟨hrest, hq⟩)⟩
  · obtain rfl := hus'.eq_nil_of_finished rfl
    obtain rfl := Dialogue.Transcript.nil_iff.mp hus'
    rw [List.append_nil]
    exact ⟨_, _, streams_secondBlock hys hgs hws (by simp [hps]) (.inr ⟨rfl, rfl⟩)⟩

end TwoBlocks

end GbPlay.Server.Transcripts
