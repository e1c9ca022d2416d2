import GbPlay.Esp.Network.Moves

/-!
# The Wi-Fi lock

`s_wifi_lock` lets one task at a time into `wifi_connect`.  While the manager is
inside, the driver stays configured for the network that the manager tries.
-/

namespace GbPlay.Esp.Network.Lock

open GbPlay.Library
open GbPlay.Esp.SavedNetworks
open GbPlay.Esp.Network.Model
open GbPlay.Esp.Network.Moves

/-- In `wifi_connect`, past `esp_wifi_set_config`. -/
def configured : Connect → Bool
  | .disconnect _ _ | .clearBits _ | .start _ | .waitBits _ => true
  | _ => false

def holdsLock (w : World) : Task → Bool
  | .manager => Manager.holdsLock w.manager
  | .console => Console.holdsLock w.console

structure Locked (w : World) : Prop where
  held : (mutex w.wifi).Held (holdsLock w)
  config : ∀ info creds next pc, w.manager = .connecting info creds next pc →
    configured pc = true → w.wifi.config = .cfg creds.ssid.str creds.pass.str

theorem holdsLock_of_configured {pc : Connect} (h : configured pc = true) :
    Connect.holdsLock pc = true := by
  cases pc <;> first | rfl | cases h

theorem disconnectStep_config {s s' : Wifi} {pc : Disconnect} {pc' : Option Disconnect}
    (h : disconnectStep s pc = some (s', pc')) : s'.config = s.config :=
  congrArg Mutex.data (disconnectStep_mutex h)

/-- Between the check and the end of the last attempt the configuration is the
call's own. -/
theorem connectStep_config {task : Task} {force : Bool} {cfg : StaConfig} {answer : Answer}
    {s s' : Wifi} {pc pc' : Connect} {actions : List Action}
    (h : connectStep task force cfg answer s pc = some (s', actions, pc'))
    (hconfig : configured pc = true → s.config = cfg) (hpc' : configured pc' = true) :
    s'.config = cfg := by
  cases pc with
  | takeLock =>
      simp only [connectStep] at h
      split at h <;> cases h
      cases hpc'
  | check =>
      simp only [connectStep] at h
      split at h <;> cases h
      · cases hpc'
      · rfl
  | disconnect i pc =>
      simp only [connectStep] at h
      split at h <;> cases h
      · rename_i hstep
        exact (disconnectStep_config hstep).trans (hconfig rfl)
      · rename_i hstep
        exact (disconnectStep_config hstep).trans (hconfig rfl)
  | clearBits i =>
      cases h
      exact hconfig rfl
  | start i =>
      simp only [connectStep] at h
      split at h <;> cases h <;> exact hconfig rfl
  | waitBits i =>
      simp only [connectStep] at h
      split at h
      · cases h
        exact hconfig rfl
      · split at h <;> cases h
        exact hconfig rfl
  | giveLock didConnect =>
      cases h
      cases hpc'
  | returned didConnect => cases h

section Step

variable {w w' : World}

/-- A step of the manager, as the lock sees it. -/
theorem Locked.held_manager (h : Locked w) (hconsole : w'.console = w.console)
    (huse : Mutex.Use .manager (mutex w.wifi) (Manager.holdsLock w.manager) (mutex w'.wifi)
      (Manager.holdsLock w'.manager)) : (mutex w'.wifi).Held (holdsLock w') := by
  refine h.held.use huse ?_
  intro t ht
  cases t with
  | manager => exact absurd rfl ht
  | console => exact congrArg Console.holdsLock hconsole

/-- Outside `wifi_connect` and `wifi_scan` the manager has no business with the lock. -/
theorem Locked.of_outside (h : Locked w) (hwifi : w'.wifi = w.wifi)
    (hconsole : w'.console = w.console) (hout : Manager.holdsLock w.manager = false)
    (hout' : Manager.holdsLock w'.manager = false) : Locked w' := by
  refine ⟨h.held_manager hconsole ?_, ?_⟩
  · rw [hwifi, hout, hout']
    exact .rest false
  · intro info creds next pc hmanager hpc
    have hin := holdsLock_of_configured hpc
    rw [hmanager, Manager.holdsLock, hin] at hout'
    cases hout'

theorem locked_handleBits {bits : EventBits} (h : Locked w) (hmanager : w.manager = .woken bits) :
    Locked (handleBits w bits) := by
  have hout : Manager.holdsLock w.manager = false := by rw [hmanager]; rfl
  unfold handleBits
  split
  · split <;> exact h.of_outside rfl rfl hout rfl
  · split
    · exact h.of_outside rfl rfl hout rfl
    · split <;> exact h.of_outside rfl rfl hout rfl

theorem locked_compares {i : Nat} (h : Locked w) (hmanager : w.manager = .ensureNetworkInfo i)
    (hcompares : Compares w i w') : Locked w' := by
  have hout : Manager.holdsLock w.manager = false := by rw [hmanager]; rfl
  cases hcompares with
  | passed => exact h.of_outside rfl rfl hout rfl
  | found => exact h.of_outside rfl rfl hout rfl
  | inserted => exact h.of_outside rfl rfl hout rfl

theorem holdsLock_next (next : Next) : Manager.holdsLock next.manager = false := by
  cases next <;> rfl

theorem locked_tryConnect {creds : WifiNetworkCredentials} {next : Next} (h : Locked w)
    (hmanager : w.manager = .tryConnect creds next) : Locked (tryConnect w creds next) := by
  have hout : Manager.holdsLock w.manager = false := by rw [hmanager]; rfl
  unfold tryConnect
  dsimp only
  split
  · exact h.of_outside rfl rfl hout (holdsLock_next next)
  · refine h.of_outside rfl rfl hout ?_
    show Connect.holdsLock (wifiConnect creds.ssid.str creds.pass.str) = false
    unfold wifiConnect
    split <;> rfl

theorem locked_step {l : Label} (h : Locked w) (hmove : Move w l w') : Locked w' := by
  cases hmove with
  | aside haside =>
      have hothers (t : Task) (ht : t ≠ .console) : holdsLock w' t = holdsLock w t := by
        cases t with
        | manager => exact congrArg Manager.holdsLock haside.manager
        | console => exact absurd rfl ht
      have huse : Mutex.Use .console (mutex w.wifi) (holdsLock w .console) (mutex w'.wifi)
          (holdsLock w' .console) := haside.lock
      refine ⟨h.held.use huse hothers, ?_⟩
      intro info creds next pc hmanager hpc
      rw [haside.manager] at hmanager
      -- the manager holds the lock, so the console has not changed the configuration
      have hin : holdsLock w .manager = true := by
        rw [holdsLock, hmanager]
        exact holdsLock_of_configured hpc
      have hne : Task.manager ≠ .console := by decide
      have hsame : w'.wifi.config = w.wifi.config := h.held.data_eq huse hne hin
      exact hsame.trans (h.config info creds next pc hmanager hpc)
  | announce => exact ⟨h.held, h.config⟩
  | deliver => exact ⟨h.held, h.config⟩
  | wake hmanager => exact h.of_outside rfl rfl (by rw [hmanager]; rfl) rfl
  | handleBits hmanager => exact locked_handleBits h hmanager
  | roam wifi hroaming hm hlock =>
      refine ⟨h.held_manager rfl hlock, ?_⟩
      intro info creds next pc hmanager
      have hconnecting : _ = Manager.connecting info creds next pc := hmanager
      subst hconnecting
      cases hm with
      | roaming hroaming => cases hroaming
  | tryConnect hmanager => exact locked_tryConnect h hmanager
  | connect hmanager hstep =>
      refine ⟨h.held_manager rfl ?_, ?_⟩
      · rw [hmanager]
        exact connectStep_use hstep
      · intro info creds next pc heq hpc
        cases heq
        exact connectStep_config hstep (h.config _ _ _ _ hmanager) hpc
  | connected hmanager => exact h.of_outside rfl rfl (by rw [hmanager]; rfl) rfl
  | failed hmanager =>
      exact h.of_outside rfl rfl (by rw [hmanager]; rfl) (holdsLock_next _)
  | comparePrev hmanager hcompares => exact locked_compares h hmanager hcompares
  | blockLeft hmanager => exact h.of_outside rfl rfl (by rw [hmanager]; rfl) rfl

end Step

theorem locked_start (savedNetworks : WifiSavedNetworkInfo) : Locked (start savedNetworks) := by
  refine ⟨?_, ?_⟩
  · intro t ht
    cases t <;> cases ht
  · intro info creds next pc hmanager
    cases hmanager

end GbPlay.Esp.Network.Lock
