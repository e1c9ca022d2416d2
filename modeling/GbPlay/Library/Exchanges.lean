import GbPlay.Library.Sessions

/-!
# Exchanges with one device

A party exchanges with a device through a component, and makes no request before it
has received the answer to the last one.  `Exchanging` says what has been sent and
received, whether an answer is due and where the component stands.  Requests, the
steps of the component and answers keep it, whatever else the party does; it may
also stop receiving.
-/

namespace GbPlay.Library.Exchanges

open GbPlay.Library.Relays GbPlay.Library.Sessions

variable {γ σ ℓ α β : Type*} {device : γ → α → γ × β} {R : σ → Phase γ α β → Prop}
  {c : Component σ ℓ α β} {g₀ : γ} {s s' : σ} {sent : List α} {got : List β} {due : Bool}

inductive Exchanging (device : γ → α → γ × β) (R : σ → Phase γ α β → Prop) (g₀ : γ) (s : σ)
    (sent : List α) (got : List β) : Bool → Prop
  | settled : R s (.idle (after device g₀ sent)) → got = answers device g₀ sent →
      Exchanging device R g₀ s sent got false
  | asked {as : List α} {a : α} : sent = as ++ [a] → got = answers device g₀ as →
      R s (.asked (after device g₀ as) a) → Exchanging device R g₀ s sent got true
  | served {as : List α} {a : α} : sent = as ++ [a] → got = answers device g₀ as →
      R s (.answered (after device g₀ sent) (device (after device g₀ as) a).2) →
      Exchanging device R g₀ s sent got true

namespace Exchanging

theorem start (h : R s (.idle g₀)) : Exchanging device R g₀ s [] [] false := .settled h rfl

theorem send (hc : Serves c device R) (h : Exchanging device R g₀ s sent got false) (a : α) :
    Exchanging device R g₀ (c.ask s a) (sent ++ [a]) got true := by
  cases h with
  | settled hR hgot => exact .asked rfl hgot (hc.ask hR a)

theorem step (hc : Serves c device R) (h : Exchanging device R g₀ s sent got due) {l : ℓ}
    (hstep : c.step s l = some s') : Exchanging device R g₀ s' sent got due := by
  cases h with
  | settled hR hgot =>
      obtain ⟨p, hserving, hR'⟩ := hc.step hR hstep
      rcases hserving with rfl | ⟨g, a, hasked, _⟩
      · exact .settled hR' hgot
      · cases hasked
  | @asked as a hsent hgot hR =>
      obtain ⟨p, hserving, hR'⟩ := hc.step hR hstep
      rcases hserving with rfl | ⟨g, b, hasked, rfl⟩
      · exact .asked hsent hgot hR'
      · cases hasked
        have hafter : (device (after device g₀ as) a).1 = after device g₀ sent := by
          rw [hsent, after_append]
          rfl
        rw [hafter] at hR'
        exact .served hsent hgot hR'
  | served hsent hgot hR =>
      obtain ⟨p, hserving, hR'⟩ := hc.step hR hstep
      rcases hserving with rfl | ⟨g, a, hasked, _⟩
      · exact .served hsent hgot hR'
      · cases hasked

/-- An answer that comes is the one that is due. -/
theorem receive (hc : Serves c device R) (h : Exchanging device R g₀ s sent got due) {b : β}
    (hanswer : c.answer s = some (b, s')) :
    due = true ∧ Exchanging device R g₀ s' sent (got ++ [b]) false := by
  cases h with
  | settled hR _ =>
      obtain ⟨g, hphase, _⟩ := hc.answer hR hanswer
      cases hphase
  | asked _ _ hR =>
      obtain ⟨g, hphase, _⟩ := hc.answer hR hanswer
      cases hphase
  | @served as a hsent hgot hR =>
      obtain ⟨g, hphase, hR'⟩ := hc.answer hR hanswer
      cases hphase
      refine ⟨rfl, .settled hR' ?_⟩
      rw [hgot, hsent, answers_append]
      rfl

theorem phase (h : Exchanging device R g₀ s sent got due) : ∃ p, R s p := by
  cases h with
  | settled hR _ => exact ⟨_, hR⟩
  | asked _ _ hR => exact ⟨_, hR⟩
  | served _ _ hR => exact ⟨_, hR⟩

/-- What the party knows, and what the device has seen. -/
theorem genuine {state : σ → γ} (hstate : ∀ {s p}, R s p → state s = p.state)
    (h : Exchanging device R g₀ s sent got due) :
    got <+: answers device g₀ sent ∧ sent.length ≤ got.length + due.toNat ∧
      ∃ done, state s = after device g₀ done ∧ done <+: sent ∧ got.length ≤ done.length := by
  cases h with
  | settled hR hgot =>
      refine ⟨hgot ▸ List.prefix_rfl, ?_, sent, hstate hR, List.prefix_rfl, ?_⟩
      · simp [hgot]
      · simp [hgot]
  | @asked as a hsent hgot hR =>
      refine ⟨?_, ?_, as, hstate hR, hsent ▸ List.prefix_append _ _, ?_⟩
      · rw [hsent, hgot, answers_append]
        exact List.prefix_append _ _
      · simp [hsent, hgot]
      · simp [hgot]
  | @served as a hsent hgot hR =>
      refine ⟨?_, ?_, sent, hstate hR, List.prefix_rfl, ?_⟩
      · rw [hsent, hgot, answers_append]
        exact List.prefix_append _ _
      · simp [hsent, hgot]
      · simp [hsent, hgot]

/-- Once nothing is due, the device has seen all that has been sent. -/
theorem state_of_settled {state : σ → γ} (hstate : ∀ {s p}, R s p → state s = p.state)
    (h : Exchanging device R g₀ s sent got false) : state s = after device g₀ sent := by
  cases h with
  | settled hR _ => exact hstate hR

end Exchanging

end GbPlay.Library.Exchanges
