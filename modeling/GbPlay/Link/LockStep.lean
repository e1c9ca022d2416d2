import GbPlay.Link.Model

/-!
# Lock-step across the link

`Move` says once what a step of the link can do.  The invariant `Inv` follows
the one byte on its way: before the SPI transfer it is the byte of the call
whose number is the number of transfers so far, after it the reply to the last
transfer, and while the socket is connected it always belongs to the call in
progress.  From it `exchangeByte_lockstep` concludes that the Game Boy is clocked in
the bytes of the calls in order, and that each call that succeeds returns the Game Boy's
answer to that call's own byte.
-/

namespace GbPlay.Link.LockStep

open GbPlay.Library.Runs GbPlay.Server.Client GbPlay.Link.Model

variable {γ : Type*} {gb : γ → Byte → γ × Byte} {g₀ : γ} {s s' : State γ} {l : Label}

/-! ## What one step can do -/

inductive Move (gb : γ → Byte → γ × Byte) (s : State γ) : State γ → Prop
  | call (tx : Int) (hcall : s.call = none) :
      Move gb s { s with call := some (.delaying (lowByte tx)), calls := s.calls ++ [tx] }
  | writeAccepted {b : Byte} (hcall : s.call = some (.delaying b))
      (hsock : s.client.socket = .connected) :
      Move gb s { s with
        call := some (.exchanging true .start)
        down := s.down ++ [⟨s.outcomes.length, b⟩] }
  | writeRefused {b : Byte} (hcall : s.call = some (.delaying b)) :
      Move gb s { s with call := some (.exchanging false .start) }
  | waiting {a : Bool} {e e' : Exchange} {c : GameBoyClient}
      (hcall : s.call = some (.exchanging a e)) (hopen : e'.Open)
      (hlast : c.lastReceivedByte = s.client.lastReceivedByte)
      (hsock : c.socket = .connected → s.client.socket = .connected) :
      Move gb s { s with client := c, call := some (.exchanging a e') }
  | rejected {a : Bool} {e : Exchange} {c : GameBoyClient}
      (hcall : s.call = some (.exchanging a e))
      (hlast : c.lastReceivedByte = s.client.lastReceivedByte)
      (hsock : c.socket ≠ .connected) :
      Move gb s { s with client := c, call := none, outcomes := s.outcomes ++ [.rejected] }
  | closed (hcall : ∀ a e, s.call ≠ some (.exchanging a e)) :
      Move gb s { s with client := { s.client with socket := .closed } }
  | resolved {a : Bool} {e : Exchange} {n : Nat} {f : Frame} {fs : List Frame}
      (hcall : s.call = some (.exchanging a e)) (hsock : s.client.socket = .connected)
      (hup : s.up.take n = f :: fs) :
      Move gb s { s with
        client := { s.client with lastReceivedByte := f.byte }
        call := none
        outcomes := s.outcomes ++ [.resolved f.byte]
        up := s.up.drop n }
  | discarded {n : Nat} {f : Frame} {fs : List Frame}
      (hsock : s.client.socket = .connected) (hup : s.up.take n = f :: fs)
      (hcall : ∀ a e, s.call = some (.exchanging a e) → f.call ≠ s.outcomes.length) :
      Move gb s { s with up := s.up.drop n }
  | recv {f : Frame} {rest : List Frame} (hdongle : s.dongle = .reading)
      (hdown : s.down = f :: rest) :
      Move gb s { s with dongle := .exchanging f, down := rest }
  | stop (hdongle : ∀ f, s.dongle ≠ .exchanging f) :
      Move gb s { s with dongle := .stopped }
  | spi {f : Frame} (hdongle : s.dongle = .exchanging f) :
      Move gb s { s with
        dongle := .writing ⟨f.call, (gb s.gameBoy f.byte).2⟩
        gameBoy := (gb s.gameBoy f.byte).1
        transfers := s.transfers ++ [⟨f.byte, (gb s.gameBoy f.byte).2⟩] }
  | send {f : Frame} (hdongle : s.dongle = .writing f) :
      Move gb s { s with dongle := .reading, up := s.up ++ [f] }

theorem afterListener_settled {a : Bool} {c : GameBoyClient} {e : Exchange} {o : Outcome}
    (h : e.outcome = some o) :
    afterListener s a c e =
      { s with client := c, call := none, outcomes := s.outcomes ++ [o] } := by
  simp [afterListener, h]

theorem afterListener_open {a : Bool} {c : GameBoyClient} {e : Exchange} (h : e.Open) :
    afterListener s a c e = { s with client := c, call := some (.exchanging a e) } := by
  simp [afterListener, h.outcome]

theorem onTimeout_client (c : GameBoyClient) (e : Exchange) :
    (onTimeout c e).1.lastReceivedByte = c.lastReceivedByte ∧
      ((onTimeout c e).1.socket = .connected → c.socket = .connected) := by
  unfold onTimeout
  split <;> simp

theorem move_of_data {n : Nat} (hopen : ∀ a e, s.call = some (.exchanging a e) → e.Open)
    (h : step gb s (.data n) = some s') : Move gb s s' := by
  simp only [step] at h
  split at h
  · cases h
  · rename_i f fs hup
    split at h
    · rename_i hguard
      obtain ⟨hsock, hran⟩ := hguard
      have hf : callbackRan s f = true := by
        rw [List.all_cons, Bool.and_eq_true] at hran
        exact hran.1
      split at h
      · rename_i a e hcall
        have he := hopen a e hcall
        cases hsent : e.sentByte with
        | true =>
            obtain ⟨hclient, hout⟩ := onData_of_sent he hsent s.client f.byte
            rw [afterListener_settled hout, hclient] at h
            obtain rfl := Option.some.inj h
            exact .resolved hcall hsock hup
        | false =>
            rw [onData_of_not_sent hsent, afterListener_open he] at h
            obtain rfl := Option.some.inj h
            have hne : f.call ≠ s.outcomes.length := by
              simpa [callbackRan, hcall, hsent] using hf
            have hmove : Move gb s _ := .discarded hsock hup fun _ _ _ => hne
            rwa [← hcall]
      · rename_i hcall
        obtain rfl := Option.some.inj h
        exact .discarded hsock hup fun a e he => absurd he (hcall a e)
    · cases h

theorem move_of_step (hopen : ∀ a e, s.call = some (.exchanging a e) → e.Open)
    (h : step gb s l = some s') : Move gb s s' := by
  cases l with
  | call tx =>
      simp only [step] at h
      split at h
      · rename_i hcall
        obtain rfl := Option.some.inj h
        exact .call tx hcall
      · cases h
  | write accepted =>
      simp only [step] at h
      split at h
      · rename_i tx hcall
        cases accepted with
        | true =>
            simp only [if_true] at h
            split at h
            · rename_i hsock
              obtain rfl := Option.some.inj h
              exact .writeAccepted hcall hsock
            · cases h
        | false =>
            obtain rfl := Option.some.inj h
            exact .writeRefused hcall
      · cases h
  | written =>
      simp only [step] at h
      split at h
      · rename_i e hcall
        split at h
        · cases h
        · obtain rfl := Option.some.inj h
          exact .waiting hcall (hopen true e hcall).onWrite_ok rfl id
      · cases h
  | writeError =>
      simp only [step] at h
      split at h
      · rename_i a e hcall
        split at h
        · cases h
        · rw [afterListener_settled (hopen a e hcall).onWrite_error] at h
          obtain rfl := Option.some.inj h
          exact .rejected hcall rfl (SocketState.destroy_ne_connected _)
      · cases h
  | timeout =>
      simp only [step] at h
      split at h
      · rename_i a e hcall
        rw [afterListener_open (onTimeout_open (hopen a e hcall) _)] at h
        obtain rfl := Option.some.inj h
        obtain ⟨hlast, hsock⟩ := onTimeout_client s.client e
        exact .waiting hcall (onTimeout_open (hopen a e hcall) _) hlast hsock
      · cases h
  | close =>
      simp only [step] at h
      split at h
      · cases h
      · split at h
        · rename_i a e hcall
          rw [afterListener_settled (hopen a e hcall).onClose_outcome] at h
          obtain rfl := Option.some.inj h
          exact .rejected hcall rfl (by simp)
        · rename_i hcall
          obtain rfl := Option.some.inj h
          exact .closed hcall
  | data n => exact move_of_data hopen h
  | recv =>
      simp only [step] at h
      split at h
      · rename_i f rest hdongle hdown
        obtain rfl := Option.some.inj h
        exact .recv hdongle hdown
      · cases h
  | recvError =>
      simp only [step] at h
      split at h
      · rename_i hdongle
        obtain rfl := Option.some.inj h
        exact .stop (by simp [hdongle])
      · cases h
  | spi =>
      simp only [step] at h
      split at h
      · rename_i f hdongle
        obtain rfl := Option.some.inj h
        exact .spi hdongle
      · cases h
  | send =>
      simp only [step] at h
      split at h
      · rename_i f hdongle
        obtain rfl := Option.some.inj h
        exact .send hdongle
      · cases h
  | sendError =>
      simp only [step] at h
      split at h
      · rename_i f hdongle
        obtain rfl := Option.some.inj h
        exact .stop (by simp [hdongle])
      · cases h

/-! ## The invariant -/

/-- The frame read from the socket and not yet clocked into the Game Boy. -/
def received : Dongle → List Frame
  | .exchanging f => [f]
  | _ => []

/-- The reply not yet written to the socket. -/
def replied : Dongle → List Frame
  | .writing f => [f]
  | _ => []

/-- The bytes on their way to the SPI transfer. -/
def requests (s : State γ) : List Frame := s.down ++ received s.dongle

/-- The replies on their way to the server. -/
def answers (s : State γ) : List Frame := replied s.dongle ++ s.up

/-- The values of the calls that resolved, in order. -/
def successes (outcomes : List Outcome) : List Byte :=
  outcomes.filterMap fun
    | .resolved rx => some rx
    | .rejected => none

@[simp] theorem successes_concat_resolved (os : List Outcome) (rx : Byte) :
    successes (os ++ [.resolved rx]) = successes os ++ [rx] := by
  simp [successes]

@[simp] theorem successes_concat_rejected (os : List Outcome) :
    successes (os ++ [.rejected]) = successes os := by
  simp [successes]

/-- The Game Boy's replies to the bytes clocked into it. -/
def replies (gb : γ → Byte → γ × Byte) : γ → List Byte → List Byte
  | _, [] => []
  | g, b :: bs => (gb g b).2 :: replies gb (gb g b).1 bs

def stateAfter (gb : γ → Byte → γ × Byte) : γ → List Byte → γ
  | g, [] => g
  | g, b :: bs => stateAfter gb (gb g b).1 bs

theorem replies_concat (g : γ) (bs : List Byte) (b : Byte) :
    replies gb g (bs ++ [b]) = replies gb g bs ++ [(gb (stateAfter gb g bs) b).2] := by
  induction bs generalizing g with
  | nil => rfl
  | cons c bs ih => simp [replies, stateAfter, ih]

theorem stateAfter_concat (g : γ) (bs : List Byte) (b : Byte) :
    stateAfter gb g (bs ++ [b]) = (gb (stateAfter gb g bs) b).1 := by
  induction bs generalizing g with
  | nil => rfl
  | cons c bs ih => simp [stateAfter, ih]

structure Inv (gb : γ → Byte → γ × Byte) (g₀ : γ) (s : State γ) : Prop where
  calls_length : s.calls.length = s.outcomes.length + s.call.toList.length
  delaying : ∀ b, s.call = some (.delaying b) →
    (s.calls[s.outcomes.length]?).map lowByte = some b
  isOpen : ∀ a e, s.call = some (.exchanging a e) → e.Open
  /-- Calls resolve until the connection is lost and are rejected from then on. -/
  outcomes : ∃ n, s.outcomes = (successes s.outcomes).map .resolved ++ .replicate n .rejected ∧
    (s.client.socket = .connected → n = 0)
  resolved : successes s.outcomes <+: s.transfers.map Transfer.tx
  last : s.client.lastReceivedByte = (successes s.outcomes).getLast?.getD 0
  clockedIn : ∀ (k : Nat) (t : Transfer), s.transfers[k]? = some t →
    (s.calls[k]?).map lowByte = some t.rx
  transferred : s.transfers.map Transfer.tx = replies gb g₀ (s.transfers.map Transfer.rx)
  gameBoy : s.gameBoy = stateAfter gb g₀ (s.transfers.map Transfer.rx)
  single : (requests s).length + (answers s).length ≤ 1
  requested : ∀ f ∈ requests s,
    f.call = s.transfers.length ∧ (s.calls[f.call]?).map lowByte = some f.byte
  answered : ∀ f ∈ answers s,
    f.call + 1 = s.transfers.length ∧ (s.transfers[f.call]?).map Transfer.tx = some f.byte
  current : s.client.socket = .connected → ∀ f ∈ requests s ++ answers s,
    f.call = s.outcomes.length ∧ ∃ e, s.call = some (.exchanging true e)
  quiet : s.client.socket = .connected → (∀ e, s.call ≠ some (.exchanging true e)) →
    s.transfers.length = s.outcomes.length
  underway : (∃ e, s.call = some (.exchanging true e)) → s.dongle ≠ .stopped →
    ∃ f ∈ requests s ++ answers s, f.call = s.outcomes.length

theorem inv_init (gb : γ → Byte → γ × Byte) (g₀ : γ) : Inv gb g₀ (init g₀) := by
  constructor <;> simp [init, successes, replies, stateAfter, requests, answers,
    received, replied]

theorem map_getElem?_append {α β : Type*} {f : α → β} {xs ys : List α} {k : Nat} {y : β}
    (h : (xs[k]?).map f = some y) : ((xs ++ ys)[k]?).map f = some y := by
  obtain ⟨x, hx, rfl⟩ := Option.map_eq_some_iff.mp h
  obtain ⟨hk, rfl⟩ := List.getElem?_eq_some_iff.mp hx
  rw [List.getElem?_append_left hk, hx, Option.map_some]

theorem prefix_concat_of_getElem? {α : Type*} {xs ys : List α} {y : α} (h : xs <+: ys)
    (hy : ys[xs.length]? = some y) : xs ++ [y] <+: ys := by
  obtain ⟨zs, rfl⟩ := h
  cases zs with
  | nil => simp at hy
  | cons z zs =>
      obtain rfl : z = y := by simpa using hy
      exact ⟨zs, by simp⟩

namespace Inv

theorem no_frames (h : Inv gb g₀ s) (hsock : s.client.socket = .connected)
    (hcall : ∀ e, s.call ≠ some (.exchanging true e)) : requests s = [] ∧ answers s = [] := by
  have hnone : requests s ++ answers s = [] := by
    rw [List.eq_nil_iff_forall_not_mem]
    intro f hf
    obtain ⟨-, e, he⟩ := h.current hsock f hf
    exact hcall e he
  simpa using hnone

theorem call (h : Inv gb g₀ s) (tx : Int) (hcall : s.call = none) :
    Inv gb g₀ { s with call := some (.delaying (lowByte tx)), calls := s.calls ++ [tx] } := by
  have hlen : s.calls.length = s.outcomes.length := by
    simpa [hcall] using h.calls_length
  exact { h with
    calls_length := by simp [hlen]
    delaying := by
      intro b hb
      obtain rfl : lowByte tx = b := by simpa using hb
      simp [← hlen]
    isOpen := by simp
    clockedIn := fun k t ht => map_getElem?_append (h.clockedIn k t ht)
    requested := fun f hf =>
      ⟨(h.requested f hf).1, map_getElem?_append (h.requested f hf).2⟩
    current := by
      intro hsock f hf
      obtain ⟨-, e, he⟩ := h.current hsock f hf
      simp [hcall] at he
    quiet := fun hsock _ => h.quiet hsock (by simp [hcall])
    underway := by simp }

theorem writeAccepted (h : Inv gb g₀ s) {b : Byte} (hcall : s.call = some (.delaying b))
    (hsock : s.client.socket = .connected) :
    Inv gb g₀ { s with
      call := some (.exchanging true .start)
      down := s.down ++ [⟨s.outcomes.length, b⟩] } := by
  obtain ⟨hreq, hans⟩ := h.no_frames hsock (by simp [hcall])
  have hquiet := h.quiet hsock (by simp [hcall])
  have htx := h.delaying b hcall
  simp only [requests, List.append_eq_nil_iff] at hreq
  have hans' : replied s.dongle ++ s.up = [] := hans
  exact { h with
    calls_length := by simpa [hcall] using h.calls_length
    delaying := by simp
    isOpen := by
      rintro a e ⟨rfl, rfl⟩
      exact Exchange.open_start
    single := by simp [requests, answers, hreq.1, hreq.2, hans']
    requested := by
      intro f hf
      obtain rfl : f = ⟨s.outcomes.length, b⟩ := by
        simpa [requests, hreq.1, hreq.2] using hf
      exact ⟨hquiet.symm, htx⟩
    answered := by
      intro f hf
      simp [answers, hans'] at hf
    current := by
      intro _ f hf
      obtain rfl : f = ⟨s.outcomes.length, b⟩ := by
        simpa [requests, answers, hreq.1, hreq.2, hans'] using hf
      exact ⟨rfl, _, rfl⟩
    quiet := by simp
    underway := by
      intro _ _
      exact ⟨⟨s.outcomes.length, b⟩, by simp [requests], rfl⟩ }

theorem writeRefused (h : Inv gb g₀ s) {b : Byte} (hcall : s.call = some (.delaying b)) :
    Inv gb g₀ { s with call := some (.exchanging false .start) } := by
  exact { h with
    calls_length := by simpa [hcall] using h.calls_length
    delaying := by simp
    isOpen := by
      rintro a e ⟨rfl, rfl⟩
      exact Exchange.open_start
    current := by
      intro hsock f hf
      obtain ⟨-, e, he⟩ := h.current hsock f hf
      simp [hcall] at he
    quiet := fun hsock _ => h.quiet hsock (by simp [hcall])
    underway := by simp }

theorem waiting (h : Inv gb g₀ s) {a : Bool} {e e' : Exchange} {c : GameBoyClient}
    (hcall : s.call = some (.exchanging a e)) (hopen : e'.Open)
    (hlast : c.lastReceivedByte = s.client.lastReceivedByte)
    (hsock : c.socket = .connected → s.client.socket = .connected) :
    Inv gb g₀ { s with client := c, call := some (.exchanging a e') } := by
  obtain ⟨n, hout, hn⟩ := h.outcomes
  exact { h with
    calls_length := by simpa [hcall] using h.calls_length
    delaying := by simp
    isOpen := by
      rintro a' e'' ⟨rfl, rfl⟩
      exact hopen
    outcomes := ⟨n, hout, fun hc => hn (hsock hc)⟩
    last := hlast.trans h.last
    current := by
      intro hc f hf
      obtain ⟨hnum, e₀, he₀⟩ := h.current (hsock hc) f hf
      rw [hcall] at he₀
      cases he₀
      exact ⟨hnum, _, rfl⟩
    quiet := by
      intro hc hne
      apply h.quiet (hsock hc)
      rw [hcall]
      rintro e₀ ⟨rfl, rfl⟩
      exact hne _ rfl
    underway := by
      rintro ⟨e₀, he₀⟩ hdongle
      cases he₀
      exact h.underway ⟨e, hcall⟩ hdongle }

theorem rejected (h : Inv gb g₀ s) {a : Bool} {e : Exchange} {c : GameBoyClient}
    (hcall : s.call = some (.exchanging a e))
    (hlast : c.lastReceivedByte = s.client.lastReceivedByte) (hsock : c.socket ≠ .connected) :
    Inv gb g₀ { s with
      client := c, call := none, outcomes := s.outcomes ++ [.rejected] } := by
  obtain ⟨n, hout, -⟩ := h.outcomes
  exact { h with
    calls_length := by simpa [hcall] using h.calls_length
    delaying := by simp
    isOpen := by simp
    outcomes := by
      refine ⟨n + 1, ?_, fun hc => absurd hc hsock⟩
      rw [successes_concat_rejected, List.replicate_succ', ← List.append_assoc, ← hout]
    resolved := by simpa using h.resolved
    last := by simpa using hlast.trans h.last
    current := fun hc => absurd hc hsock
    quiet := fun hc => absurd hc hsock
    underway := by simp }

theorem closed (h : Inv gb g₀ s) :
    Inv gb g₀ { s with client := { s.client with socket := .closed } } := by
  obtain ⟨n, hout, -⟩ := h.outcomes
  exact { h with
    outcomes := ⟨n, hout, by simp⟩
    current := by simp
    quiet := by simp }

theorem resolve (h : Inv gb g₀ s) {a : Bool} {e : Exchange} {n : Nat} {f : Frame}
    {fs : List Frame} (hcall : s.call = some (.exchanging a e))
    (hsock : s.client.socket = .connected) (hup : s.up.take n = f :: fs) :
    Inv gb g₀ { s with
      client := { s.client with lastReceivedByte := f.byte }
      call := none
      outcomes := s.outcomes ++ [.resolved f.byte]
      up := s.up.drop n } := by
  have hmem : f ∈ s.up := List.mem_of_mem_take (by rw [hup]; simp)
  have hans : f ∈ answers s := by simp [answers, hmem]
  obtain ⟨hf, -⟩ := h.current hsock f (by simp [hans])
  obtain ⟨hlen, hbyte⟩ := h.answered f hans
  obtain ⟨m, hout, hm⟩ := h.outcomes
  obtain rfl := hm hsock
  have hcount : (successes s.outcomes).length = s.outcomes.length := by
    have := congrArg List.length hout
    simpa using this.symm
  have hsingle := h.single
  have hupLen : 0 < s.up.length := List.length_pos_of_mem hmem
  have htake : 0 < (s.up.take n).length := by rw [hup]; simp
  rw [List.length_take] at htake
  simp only [requests, answers, List.length_append] at hsingle
  have hdrop : s.up.drop n = [] := List.drop_eq_nil_of_le (by omega)
  have hdown : s.down = [] := List.length_eq_zero_iff.mp (by omega)
  have hrecv : received s.dongle = [] := List.length_eq_zero_iff.mp (by omega)
  have hrepl : replied s.dongle = [] := List.length_eq_zero_iff.mp (by omega)
  exact { h with
    calls_length := by simpa [hcall] using h.calls_length
    delaying := by simp
    isOpen := by simp
    outcomes := by
      refine ⟨0, ?_, fun _ => rfl⟩
      conv_lhs => rw [hout]
      simp
    resolved := by
      rw [successes_concat_resolved]
      apply prefix_concat_of_getElem? h.resolved
      rw [hcount, ← hf, List.getElem?_map, hbyte]
    last := by simp
    single := by simp [requests, answers, hdrop, hdown, hrecv, hrepl]
    requested := by simp [requests, hdown, hrecv]
    answered := by simp [answers, hdrop, hrepl]
    current := by simp [requests, answers, hdrop, hdown, hrecv, hrepl]
    quiet := by
      intro _ _
      simp [← hlen, hf]
    underway := by simp }

/-- Frames that only move along, or are lost by a dongle that stops. -/
theorem reframe (h : Inv gb g₀ s) (down up : List Frame) (dongle : Dongle)
    (hreq : ∀ f ∈ down ++ received dongle, f ∈ requests s)
    (hans : ∀ f ∈ replied dongle ++ up, f ∈ answers s)
    (hlen : (down ++ received dongle).length + (replied dongle ++ up).length ≤ 1)
    (hdongle : dongle ≠ .stopped → s.dongle ≠ .stopped ∧
      ∀ f ∈ requests s ++ answers s, f ∈ (down ++ received dongle) ++ (replied dongle ++ up)) :
    Inv gb g₀ { s with down := down, up := up, dongle := dongle } := by
  exact { h with
    single := hlen
    requested := fun f hf => h.requested f (hreq f hf)
    answered := fun f hf => h.answered f (hans f hf)
    current := by
      intro hsock f hf
      apply h.current hsock f
      rcases List.mem_append.mp hf with hf | hf
      · exact List.mem_append_left _ (hreq f hf)
      · exact List.mem_append_right _ (hans f hf)
    underway := by
      intro hcall hne
      obtain ⟨hs, hmem⟩ := hdongle hne
      obtain ⟨f, hf, hnum⟩ := h.underway hcall hs
      exact ⟨f, hmem f hf, hnum⟩ }

theorem spi (h : Inv gb g₀ s) {f : Frame} (hdongle : s.dongle = .exchanging f) :
    Inv gb g₀ { s with
      dongle := .writing ⟨f.call, (gb s.gameBoy f.byte).2⟩
      gameBoy := (gb s.gameBoy f.byte).1
      transfers := s.transfers ++ [⟨f.byte, (gb s.gameBoy f.byte).2⟩] } := by
  have hf : f ∈ requests s := by simp [requests, hdongle, received]
  obtain ⟨hnum, hbyte⟩ := h.requested f hf
  have hsingle := h.single
  simp only [requests, answers, hdongle, received, replied, List.length_append,
    List.length_singleton, List.length_nil] at hsingle
  have hdown : s.down = [] := List.length_eq_zero_iff.mp (by omega)
  have hup : s.up = [] := List.length_eq_zero_iff.mp (by omega)
  exact { h with
    resolved := by
      rw [List.map_append]
      exact h.resolved.trans (List.prefix_append _ _)
    clockedIn := by
      intro k t ht
      rcases Nat.lt_trichotomy k s.transfers.length with hk | rfl | hk
      · rw [List.getElem?_append_left hk] at ht
        exact h.clockedIn k t ht
      · obtain rfl : (⟨f.byte, (gb s.gameBoy f.byte).2⟩ : Transfer) = t := by simpa using ht
        rwa [← hnum]
      · rw [List.getElem?_eq_none (by simp; omega)] at ht
        cases ht
    transferred := by
      simp [replies_concat, ← h.transferred, ← h.gameBoy]
    gameBoy := by
      simp [stateAfter_concat, ← h.gameBoy]
    single := by simp [requests, answers, received, replied, hdown, hup]
    requested := by simp [requests, received, hdown]
    answered := by
      intro f' hf'
      obtain rfl : f' = ⟨f.call, (gb s.gameBoy f.byte).2⟩ := by
        simpa [answers, replied, hup] using hf'
      simp [hnum]
    current := by
      intro hsock f' hf'
      obtain rfl : f' = ⟨f.call, (gb s.gameBoy f.byte).2⟩ := by
        simpa [requests, answers, received, replied, hdown, hup] using hf'
      exact h.current hsock f (by simp [hf])
    quiet := by
      intro hsock hcall
      have hnone := (h.no_frames hsock hcall).1
      simp [hnone] at hf
    underway := by
      intro hcall _
      obtain ⟨f', hf', hnum'⟩ := h.underway hcall (by simp [hdongle])
      obtain rfl : f' = f := by
        simpa [requests, answers, hdongle, received, replied, hdown, hup] using hf'
      exact ⟨⟨f'.call, (gb s.gameBoy f'.byte).2⟩, by simp [answers, replied], hnum'⟩ }

end Inv

theorem Inv.move (h : Inv gb g₀ s) (hm : Move gb s s') : Inv gb g₀ s' := by
  cases hm with
  | call tx hcall => exact h.call tx hcall
  | writeAccepted hcall hsock => exact h.writeAccepted hcall hsock
  | writeRefused hcall => exact h.writeRefused hcall
  | waiting hcall hopen hlast hsock => exact h.waiting hcall hopen hlast hsock
  | rejected hcall hlast hsock => exact h.rejected hcall hlast hsock
  | closed _ => exact h.closed
  | resolved hcall hsock hup => exact h.resolve hcall hsock hup
  | @discarded n f fs hsock hup hcall =>
      have hf : f ∈ s.up := List.mem_of_mem_take (by rw [hup]; simp)
      obtain ⟨hnum, e, he⟩ := h.current hsock f (by simp [answers, hf])
      exact absurd hnum (hcall true e he)
  | @recv f rest hdongle hdown =>
      have hsingle := h.single
      simp only [requests, answers, hdongle, hdown, received, replied, List.length_append,
        List.length_cons, List.length_nil] at hsingle
      have hrest : rest = [] := List.length_eq_zero_iff.mp (by omega)
      have hup : s.up = [] := List.length_eq_zero_iff.mp (by omega)
      apply h.reframe rest s.up (.exchanging f) <;>
        simp [requests, answers, hdongle, hdown, received, replied, hrest, hup]
  | stop hdongle =>
      have hsingle := h.single
      simp only [requests, answers, List.length_append] at hsingle
      apply h.reframe s.down s.up .stopped
      · simp +contextual [requests, received]
      · simp +contextual [answers, replied]
      · simp only [received, replied, List.append_nil, List.nil_append]
        omega
      · simp
  | @send f hdongle =>
      have hsingle := h.single
      simp only [requests, answers, hdongle, received, replied, List.length_append,
        List.length_cons, List.length_nil] at hsingle
      have hdown : s.down = [] := List.length_eq_zero_iff.mp (by omega)
      have hup : s.up = [] := List.length_eq_zero_iff.mp (by omega)
      apply h.reframe s.down (s.up ++ [f]) .reading <;>
        simp [requests, answers, hdongle, received, replied, hdown, hup]
  | spi hdongle => exact h.spi hdongle

theorem inv_of_reachable (h : Reachable (Fires (step gb)) (init g₀) s) : Inv gb g₀ s :=
  h.invariant (inv_init gb g₀) fun _ _ _ hinv hstep =>
    hinv.move (move_of_step hinv.isOpen hstep)

/-! ## Lock-step -/

structure InLockStep (gb : γ → Byte → γ × Byte) (g₀ : γ) (s : State γ) : Prop where
  /-- The `k`-th SPI transfer carries the low byte of the `k`-th call's value. -/
  clockedIn : ∀ (k : Nat) (t : Transfer), s.transfers[k]? = some t →
    (s.calls[k]?).map lowByte = some t.rx
  /-- Every reply is the Game Boy's own, to the bytes clocked in so far. -/
  transferred : s.transfers.map Transfer.tx = replies gb g₀ (s.transfers.map Transfer.rx)
  /-- The `k`-th successful call resolves with the reply to the `k`-th transfer. -/
  success : ∀ (k : Nat) (rx : Byte), (successes s.outcomes)[k]? = some rx →
    (s.transfers[k]?).map Transfer.tx = some rx
  /-- That transfer is the one of the call's own byte. -/
  attributed : ∀ (k : Nat) (rx : Byte), s.outcomes[k]? = some (.resolved rx) →
    (s.transfers[k]?).map Transfer.tx = some rx
  last : s.client.lastReceivedByte = (successes s.outcomes).getLast?.getD 0
  inFlight : s.down.length + s.up.length ≤ 1
  /-- A byte in flight belongs to the call in progress while the socket is connected. -/
  current : s.client.socket = .connected → ∀ f ∈ s.down ++ s.up, f.call = s.outcomes.length
  /-- The byte of a call is in one place until its reply is delivered, unless the
  dongle has left its loop. -/
  notLost : (∃ e, s.call = some (.exchanging true e)) → s.dongle ≠ .stopped →
    ((requests s ++ answers s).map Frame.call) = [s.outcomes.length]

theorem Inv.outcome_resolved (h : Inv gb g₀ s) {k : Nat} {rx : Byte}
    (hk : s.outcomes[k]? = some (.resolved rx)) : (successes s.outcomes)[k]? = some rx := by
  obtain ⟨n, hout, -⟩ := h.outcomes
  rw [hout, List.getElem?_append] at hk
  split at hk
  · simpa using hk
  · rw [List.getElem?_replicate] at hk
    split at hk <;> cases hk

theorem Inv.success (h : Inv gb g₀ s) {k : Nat} {rx : Byte}
    (hk : (successes s.outcomes)[k]? = some rx) :
    (s.transfers[k]?).map Transfer.tx = some rx := by
  obtain ⟨bs, hbs⟩ := h.resolved
  rw [← List.getElem?_map, ← hbs, List.getElem?_append_left (List.getElem?_eq_some_iff.mp hk).1, hk]

/-- Lock-step from the server's `exchangeByte` to the Game Boy and back, in every
state that any order of the link's steps reaches. -/
theorem exchangeByte_lockstep (gb : γ → Byte → γ × Byte) (g₀ : γ)
    (h : Reachable (Fires (step gb)) (init g₀) s) : InLockStep gb g₀ s := by
  have hinv := inv_of_reachable h
  have hsingle := hinv.single
  exact {
    clockedIn := hinv.clockedIn
    transferred := hinv.transferred
    success := fun _ _ hk => hinv.success hk
    attributed := fun _ _ hk => hinv.success (hinv.outcome_resolved hk)
    last := hinv.last
    inFlight := by
      simp only [requests, answers, List.length_append] at hsingle
      omega
    current := by
      intro hsock f hf
      refine (hinv.current hsock f ?_).1
      simp only [requests, answers, List.mem_append] at hf ⊢
      tauto
    notLost := by
      intro hcall hdongle
      obtain ⟨f, hf, hnum⟩ := hinv.underway hcall hdongle
      rw [← List.length_append] at hsingle
      have hlen : (requests s ++ answers s).length = 1 :=
        Nat.le_antisymm hsingle (List.length_pos_of_mem hf)
      obtain ⟨f', hf'⟩ := List.length_eq_one_iff.mp hlen
      rw [hf'] at hf ⊢
      obtain rfl : f = f' := by simpa using hf
      simp [hnum] }

/-- A Game Boy that answers each byte with the one clocked in before it. -/
theorem exchangeByte_lockstep_two :
    ∃ s, s.outcomes = [.resolved 0x55, .resolved 0x29] ∧
      InLockStep (fun g b => (b, g)) 0x55 s := by
  have hrun : (exec (step fun g b => (b, g)) (init 0x55)
      [.call 0x129, .write true, .written, .recv, .spi, .send, .data 1,
        .call (-1), .write true, .recv, .written, .spi, .send, .data 1]).any
      (fun s => s.outcomes = [.resolved 0x55, .resolved 0x29]) = true := by decide
  obtain ⟨s, hs, hout⟩ := exists_reachable_of_exec hrun
  exact ⟨s, by simpa using hout, exchangeByte_lockstep _ _ hs⟩

end GbPlay.Link.LockStep
