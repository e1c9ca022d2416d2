import GbPlay.Tools.Bridge.Server

/-!
# What the bridge sends to its clients

Both clients are initialized, one after the other, and get the start sequence.  From
then on the bytes go to and fro as in Newton's cradle: every byte that one Game Boy
answers is the next one that the other is sent.
-/

namespace GbPlay.Tools.Bridge

open GbPlay.Library GbPlay.Library.Sessions GbPlay.Server.Client

variable {I : Type*} {P : Protocol I} {link1 link2 : I} {xs : List ((Client × Byte) × Byte)}
  {as₁ as₂ us₁ us₂ : List (Byte × Byte)} {i : Client} {a b : Byte} {goOn : Byte → Point I}

/-- The clients have entered slave mode with `as₁` and `as₂`, and have exchanged `us₁` and `us₂`
since. -/
structure Entered (P : Protocol I) (link1 link2 : I) (as₁ as₂ us₁ us₂ : List (Byte × Byte))
    (xs : List ((Client × Byte) × Byte)) : Prop where
  client1 : talk .client1 xs = as₁ ++ us₁
  client2 : talk .client2 xs = as₂ ++ us₂
  enters1 : Enters P link1 as₁
  enters2 : Enters P link2 as₂

/-- What client 1 has answered, from the last byte before the first that is forwarded. -/
def forwarded1 (P : Protocol I) (as₁ us₁ : List (Byte × Byte)) : List Byte :=
  ((as₁ ++ us₁).map Prod.snd).drop (as₁.length + P.startSequence.length - 1)

/-- What client 2 has answered since the start sequence. -/
def forwarded2 (P : Protocol I) (us₂ : List (Byte × Byte)) : List Byte :=
  (us₂.map Prod.snd).drop P.startSequence.length

/-- What has been exchanged when the server stands at a point. -/
inductive Course (P : Protocol I) (link1 link2 : I) (xs : List ((Client × Byte) × Byte)) :
    Point I → Prop
  | entering1 {link : I} {response : Option Byte} :
      (initialization P).Transcript (link1, none) (talk .client1 xs) (link, response) →
      talk .client2 xs = [] → Course P link1 link2 xs (.entering1 link response)
  | entering2 {link : I} {response : Option Byte} : Enters P link1 (talk .client1 xs) →
      (initialization P).Transcript (link2, none) (talk .client2 xs) (link, response) →
      Course P link1 link2 xs (.entering2 link response (got .client1 xs).getLast?)
  | starting {as₁ as₂ us₁ us₂ : List (Byte × Byte)} {rest : List Byte} :
      Entered P link1 link2 as₁ as₂ us₁ us₂ xs → us₁.map Prod.fst ++ rest = P.startSequence →
      us₂.map Prod.fst ++ rest = P.startSequence →
      Course P link1 link2 xs (.starting (got .client1 xs).getLast? rest)
  | startingSecond {as₁ as₂ us₁ us₂ : List (Byte × Byte)} {gb1Byte b : Byte}
      {rest : List Byte} :
      Entered P link1 link2 as₁ as₂ us₁ us₂ xs → us₁.map Prod.fst ++ rest = P.startSequence →
      us₂.map Prod.fst ++ b :: rest = P.startSequence →
      (got .client1 xs).getLast? = some gb1Byte →
      Course P link1 link2 xs (.startingSecond gb1Byte b rest)
  | toClient2 {as₁ as₂ us₁ us₂ : List (Byte × Byte)} {gb1Byte : Byte} :
      Entered P link1 link2 as₁ as₂ us₁ us₂ xs → P.startSequence.length ≤ us₂.length →
      us₁.map Prod.fst = P.startSequence ++ forwarded2 P us₂ →
      us₂.map Prod.fst ++ [gb1Byte] = P.startSequence ++ forwarded1 P as₁ us₁ →
      Course P link1 link2 xs (.toClient2 gb1Byte)
  | toClient1 {as₁ as₂ us₁ us₂ : List (Byte × Byte)} {gb2Byte : Byte} :
      Entered P link1 link2 as₁ as₂ us₁ us₂ xs → P.startSequence.length ≤ us₁.length →
      us₁.map Prod.fst ++ [gb2Byte] = P.startSequence ++ forwarded2 P us₂ →
      us₂.map Prod.fst = P.startSequence ++ forwarded1 P as₁ us₁ →
      Course P link1 link2 xs (.toClient1 gb2Byte)

theorem Entered.exchange1 (h : Entered P link1 link2 as₁ as₂ us₁ us₂ xs) (a b : Byte) :
    Entered P link1 link2 as₁ as₂ (us₁ ++ [(a, b)]) us₂ (xs ++ [((.client1, a), b)]) where
  client1 := by simp [h.client1]
  client2 := by simp [h.client2, talk_single_of_ne]
  enters1 := h.enters1
  enters2 := h.enters2

theorem Entered.exchange2 (h : Entered P link1 link2 as₁ as₂ us₁ us₂ xs) (a b : Byte) :
    Entered P link1 link2 as₁ as₂ us₁ (us₂ ++ [(a, b)]) (xs ++ [((.client2, a), b)]) where
  client1 := by simp [h.client1, talk_single_of_ne]
  client2 := by simp [h.client2]
  enters1 := h.enters1
  enters2 := h.enters2

theorem getLast?_got_single (i : Client) (a b : Byte) :
    (got i (xs ++ [((i, a), b)])).getLast? = some b := by simp

theorem got_client1_exchange2 (a b : Byte) :
    got .client1 (xs ++ [((.client2, a), b)]) = got .client1 xs := by
  simp [got_single_of_ne]

theorem forwarded1_snoc (h : P.startSequence.length ≤ us₁.length) :
    forwarded1 P as₁ (us₁ ++ [(a, b)]) = forwarded1 P as₁ us₁ ++ [b] := by
  rw [forwarded1, ← List.append_assoc, List.map_append, List.drop_append_of_le_length]
  · rfl
  · simp only [List.length_map, List.length_append]
    omega

theorem forwarded2_snoc (h : P.startSequence.length ≤ us₂.length) :
    forwarded2 P (us₂ ++ [(a, b)]) = forwarded2 P us₂ ++ [b] := by
  rw [forwarded2, List.map_append, List.drop_append_of_le_length]
  · rfl
  · simpa using h

/-- The first byte that is forwarded is the last one before it. -/
theorem forwarded1_of_getLast? (h : us₁.length = P.startSequence.length)
    (hlast : ((as₁ ++ us₁).map Prod.snd).getLast? = some b) : forwarded1 P as₁ us₁ = [b] := by
  obtain ⟨ys, hys⟩ := List.getLast?_eq_some_iff.mp hlast
  have hlength : ys.length + 1 = as₁.length + P.startSequence.length := by
    have := congrArg List.length hys
    simp only [List.length_map, List.length_append, List.length_singleton] at this
    omega
  rw [forwarded1, hys, ← hlength, Nat.add_sub_cancel, List.drop_left]

theorem length_of_started {rest : List Byte} (h : us₁.map Prod.fst ++ rest = P.startSequence) :
    us₁.length + rest.length = P.startSequence.length := by
  rw [← h, List.length_append, List.length_map]

theorem course_start {rest : List Byte} (h : Entered P link1 link2 as₁ as₂ us₁ us₂ xs)
    (hus₁ : us₁.map Prod.fst ++ rest = P.startSequence)
    (hus₂ : us₂.map Prod.fst ++ rest = P.startSequence)
    (hstart : start (got .client1 xs).getLast? rest = some ((i, a), goOn)) (b : Byte) :
    Course P link1 link2 (xs ++ [((i, a), b)]) (goOn b) := by
  cases rest with
  | cons c rest =>
      obtain ⟨⟨rfl, rfl⟩, rfl⟩ : (Client.client1 = i ∧ c = a) ∧
          (fun rx => Point.startingSecond rx c rest) = goOn := by simpa [start] using hstart
      refine .startingSecond (h.exchange1 c b) (by simpa using hus₁) hus₂ ?_
      exact getLast?_got_single .client1 c b
  | nil =>
      obtain ⟨gb1Byte, hlast, heq⟩ := Option.map_eq_some_iff.mp hstart
      obtain ⟨⟨rfl, rfl⟩, rfl⟩ : (Client.client2 = i ∧ gb1Byte = a) ∧
          (Point.toClient1 : Byte → Point I) = goOn := by simpa using heq
      have hlength₁ := length_of_started hus₁
      have hlength₂ := length_of_started hus₂
      rw [List.length_nil, Nat.add_zero] at hlength₁ hlength₂
      rw [List.append_nil] at hus₁ hus₂
      rw [got, h.client1] at hlast
      refine .toClient1 (h.exchange2 gb1Byte b) (Nat.le_of_eq hlength₁.symm) ?_ ?_
      · rw [hus₁, forwarded2_snoc (Nat.le_of_eq hlength₂.symm), forwarded2,
          List.drop_of_length_le (by simp [hlength₂])]
        rfl
      · rw [forwarded1_of_getLast? hlength₁ hlast, List.map_append, hus₂]
        rfl

theorem course_enterSecond {link : I} {response : Option Byte}
    (henters : Enters P link1 (talk .client1 xs))
    (htranscript : (initialization P).Transcript (link2, none) (talk .client2 xs) (link, response))
    (h : enterSecond P link response (got .client1 xs).getLast? = some ((i, a), goOn)) (b : Byte) :
    Course P link1 link2 (xs ++ [((i, a), b)]) (goOn b) := by
  simp only [enterSecond] at h
  split at h
  · cases h
  · rename_i link' toSend hsend
    obtain ⟨⟨rfl, rfl⟩, rfl⟩ : (Client.client2 = i ∧ toSend = a) ∧
        (fun rx => Point.entering2 link' (some rx) (got .client1 xs).getLast?) = goOn := by
      simpa using h
    rw [← got_client1_exchange2 toSend b]
    refine .entering2 ?_ ?_
    · simpa [talk_single_of_ne] using henters
    · simpa using initialization_snoc htranscript hsend b
  · rename_i link' hdone
    have hentered : Entered P link1 link2 (talk .client1 xs) (talk .client2 xs) [] [] xs :=
      { client1 := by simp, client2 := by simp, enters1 := henters
        enters2 := ⟨_, htranscript, link', hdone⟩ }
    exact course_start hentered rfl rfl h b

theorem course_exchange {q : Point I} (hcourse : Course P link1 link2 xs q)
    (h : exchange P link2 q = some ((i, a), goOn)) (b : Byte) :
    Course P link1 link2 (xs ++ [((i, a), b)]) (goOn b) := by
  cases hcourse with
  | entering1 htranscript hclient2 =>
      simp only [exchange] at h
      split at h
      · cases h
      · rename_i link' toSend hsend
        obtain ⟨⟨rfl, rfl⟩, rfl⟩ : (Client.client1 = i ∧ toSend = a) ∧
            (fun rx => Point.entering1 link' (some rx)) = goOn := by simpa using h
        refine .entering1 ?_ ?_
        · simpa using initialization_snoc htranscript hsend b
        · simpa [talk_single_of_ne] using hclient2
      · rename_i link' hdone
        have hlast : P.lastByteReceived link' = (got .client1 xs).getLast? :=
          (P.records hdone).trans (response_of_transcript htranscript)
        rw [hlast] at h
        refine course_enterSecond ⟨_, htranscript, link', hdone⟩ ?_ h b
        rw [hclient2]
        exact .nil
  | entering2 henters htranscript => exact course_enterSecond henters htranscript h b
  | starting hentered hus₁ hus₂ => exact course_start hentered hus₁ hus₂ h b
  | startingSecond hentered hus₁ hus₂ hlast =>
      rename_i us₂ gb1Byte c rest
      obtain ⟨⟨rfl, rfl⟩, rfl⟩ : (Client.client2 = i ∧ c = a) ∧
          (fun _ => Point.starting (some gb1Byte) rest) = goOn := by simpa [exchange] using h
      rw [← hlast, ← got_client1_exchange2 c b]
      exact .starting (hentered.exchange2 c b) hus₁ (by simpa using hus₂)
  | toClient2 hentered hlength hus₁ hus₂ =>
      rename_i gb1Byte
      obtain ⟨⟨rfl, rfl⟩, rfl⟩ : (Client.client2 = i ∧ gb1Byte = a) ∧
          (Point.toClient1 : Byte → Point I) = goOn := by simpa [exchange] using h
      refine .toClient1 (hentered.exchange2 gb1Byte b) ?_ ?_ ?_
      · have := congrArg List.length hus₁
        simp only [List.length_map, List.length_append] at this
        omega
      · rw [hus₁, forwarded2_snoc hlength, List.append_assoc]
      · rw [← hus₂, List.map_append]
        rfl
  | toClient1 hentered hlength hus₁ hus₂ =>
      rename_i gb2Byte
      obtain ⟨⟨rfl, rfl⟩, rfl⟩ : (Client.client1 = i ∧ gb2Byte = a) ∧
          (Point.toClient2 : Byte → Point I) = goOn := by simpa [exchange] using h
      refine .toClient2 (hentered.exchange1 gb2Byte b) ?_ ?_ ?_
      · have := congrArg List.length hus₂
        simp only [List.length_map, List.length_append] at this
        omega
      · rw [← hus₁, List.map_append]
        rfl
      · rw [hus₂, forwarded1_snoc hlength, List.append_assoc]

theorem course_of_transcript {q : Point I}
    (h : (run P link2).Transcript (.entering1 link1 none) xs q) :
    Course P link1 link2 xs q := by
  have hinv := h.invariant (I := Course P link1 link2) (p := []) ?_
    (.entering1 .nil rfl)
  · exact hinv
  · rintro pre q ⟨i, a⟩ b hcourse hnext
    obtain ⟨⟨_, goOn⟩, hexchange, rfl⟩ := Option.map_eq_some_iff.mp hnext
    have hreply : (run P link2).reply q b = goOn b := by simp [run, hexchange]
    rw [hreply]
    exact course_exchange hcourse hexchange b

/-- What the bridge has exchanged with its clients: it is initializing the first one, or the
second one, or they are linked, and neither is ahead of the other. -/
inductive Bridged (P : Protocol I) (link1 link2 : I) (xs : List ((Client × Byte) × Byte)) : Prop
  | initializing1 {q : I × Option Byte} :
      (initialization P).Transcript (link1, none) (talk .client1 xs) q →
      talk .client2 xs = [] → Bridged P link1 link2 xs
  | initializing2 {q : I × Option Byte} : Enters P link1 (talk .client1 xs) →
      (initialization P).Transcript (link2, none) (talk .client2 xs) q → Bridged P link1 link2 xs
  | linked {as₁ as₂ us₁ us₂ : List (Byte × Byte)} :
      Entered P link1 link2 as₁ as₂ us₁ us₂ xs →
      us₁.map Prod.fst <+: P.startSequence ++ forwarded2 P us₂ →
      us₂.map Prod.fst <+: P.startSequence ++ forwarded1 P as₁ us₁ →
      us₁.length ≤ us₂.length + 1 → us₂.length ≤ us₁.length + 1 → Bridged P link1 link2 xs

theorem prefix_of_started {vs rest ys : List Byte} (h : us₁.map Prod.fst ++ rest = vs) :
    us₁.map Prod.fst <+: vs ++ ys := by
  rw [← h, List.append_assoc]
  exact List.prefix_append _ _

theorem bridged_of_course {q : Point I} (h : Course P link1 link2 xs q) :
    Bridged P link1 link2 xs := by
  cases h with
  | entering1 htranscript hclient2 => exact .initializing1 htranscript hclient2
  | entering2 henters htranscript => exact .initializing2 henters htranscript
  | starting hentered hus₁ hus₂ =>
      have hlength₁ := length_of_started hus₁
      have hlength₂ := length_of_started hus₂
      exact .linked hentered (prefix_of_started hus₁) (prefix_of_started hus₂) (by omega)
        (by omega)
  | startingSecond hentered hus₁ hus₂ =>
      have hlength₁ := length_of_started hus₁
      have hlength₂ := length_of_started hus₂
      rw [List.length_cons] at hlength₂
      exact .linked hentered (prefix_of_started hus₁) (prefix_of_started hus₂) (by omega)
        (by omega)
  | toClient2 hentered hlength hus₁ hus₂ =>
      rename_i us₁ us₂ _
      have hequal : us₁.length = us₂.length := by
        have := congrArg List.length hus₁
        simp only [forwarded2, List.length_map, List.length_append, List.length_drop] at this
        omega
      exact .linked hentered (hus₁ ▸ List.prefix_rfl) (hus₂ ▸ List.prefix_append _ _) (by omega)
        (by omega)
  | toClient1 hentered hlength hus₁ hus₂ =>
      rename_i us₁ us₂ _
      have hequal : us₂.length = us₁.length + 1 := by
        have h₁ := congrArg List.length hus₁
        simp only [forwarded2, List.length_map, List.length_append, List.length_drop,
          List.length_singleton] at h₁
        omega
      exact .linked hentered (hus₁ ▸ List.prefix_append _ _) (hus₂ ▸ List.prefix_rfl) (by omega)
        (by omega)

end GbPlay.Tools.Bridge
