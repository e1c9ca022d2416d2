import GbPlay.Esp.Network.Moves

/-!
# The credentials that reach the driver

A call of `wifi_connect` among the steps of everything else: between two of its
steps whatever `wifi.c` shares may have changed.
-/

namespace GbPlay.Esp.Network.Credentials

open GbPlay.Library GbPlay.Library.Runs
open GbPlay.Esp.SavedNetworks
open GbPlay.Esp.Network.Model
open GbPlay.Esp.Network.Moves

/-- What a step of `wifi_connect` passes to `esp_wifi_set_config`. -/
def passed (s' : Wifi) : Connect → Connect → Option StaConfig
  | .check, .disconnect _ _ => some s'.config
  | _, _ => none

/-- The calls for these credentials: where one of them is, and with what it has
configured the driver. -/
inductive Call (task : Task) (force : Bool) (ssid password : CString) :
    List StaConfig → Connect → Prop
  | enter : Call task force ssid password [] (wifiConnect ssid password)
  | step {configs : List StaConfig} {pc pc' : Connect} {answer : Answer} {s s' : Wifi}
      {actions : List Action} : Call task force ssid password configs pc →
      connectStep task force (.cfg ssid password) answer s pc = some (s', actions, pc') →
      Call task force ssid password (configs ++ (passed s' pc pc').toList) pc'

/-- The fields hold all bytes of the credentials, and zeros behind them. -/
structure Holds (config : StaConfig) (ssid password : CString) : Prop where
  ssid : config.ssid.bytes =
    ssid.bytes ++ List.replicate (wifiMaxSsidLength - ssid.length) 0
  password : config.password.bytes =
    password.bytes ++ List.replicate (wifiMaxPassLength - password.length) 0

theorem holds_cfg_iff (ssid password : CString) :
    Holds (.cfg ssid password) ssid password ↔
      ssid.length < wifiMaxSsidLength ∧ password.length < wifiMaxPassLength := by
  constructor
  · rintro ⟨hssid, hpassword⟩
    exact ⟨(CharArray.bytes_snprintf_zero_eq_iff 31 ssid).mp hssid,
      (CharArray.bytes_snprintf_zero_eq_iff 63 password).mp hpassword⟩
  · rintro ⟨hssid, hpassword⟩
    exact ⟨(CharArray.bytes_snprintf_zero_eq_iff 31 ssid).mpr hssid,
      (CharArray.bytes_snprintf_zero_eq_iff 63 password).mpr hpassword⟩

/-- Whatever else happens, the driver gets these credentials as they are, or the call
does not configure it and returns false. -/
def Unaltered (task : Task) (force : Bool) (ssid password : CString) : Prop :=
  ∀ configs pc, Call task force ssid password configs pc →
    (∀ config ∈ configs, Holds config ssid password) ∧ (configs = [] → pc ≠ .returned true)

section Call

variable {task : Task} {force : Bool} {ssid password : CString} {configs : List StaConfig}
  {pc pc' : Connect} {answer : Answer} {s s' : Wifi} {actions : List Action}

/-- Not yet past `esp_wifi_set_config`, or given up before it. -/
def unconfigured : Connect → Bool
  | .takeLock | .check | .giveLock false | .returned false => true
  | _ => false

theorem unconfigured_wifiConnect (ssid password : CString) :
    unconfigured (wifiConnect ssid password) = true := by
  unfold wifiConnect
  split <;> rfl

/-- A call goes from the one side to the other by configuring the driver. -/
theorem passed_of_connectStep
    (h : connectStep task force (.cfg ssid password) answer s pc = some (s', actions, pc')) :
    (passed s' pc pc' = none ∧ (unconfigured pc = true → unconfigured pc' = true)) ∨
      passed s' pc pc' = some (.cfg ssid password) := by
  cases pc with
  | takeLock =>
      simp only [connectStep] at h
      split at h <;> cases h
      exact .inl ⟨rfl, fun _ => rfl⟩
  | check =>
      simp only [connectStep] at h
      split at h <;> cases h
      · exact .inl ⟨rfl, fun _ => rfl⟩
      · exact .inr rfl
  | giveLock didConnect =>
      cases h
      cases didConnect <;> exact .inl ⟨rfl, fun hpc => hpc⟩
  | returned didConnect => cases h
  | disconnect | clearBits | start | waitBits =>
      refine .inl ⟨rfl, ?_⟩
      intro hpc
      cases hpc

theorem Call.configs_eq (h : Call task force ssid password configs pc) :
    (∀ config ∈ configs, config = .cfg ssid password) ∧
      (configs = [] → unconfigured pc = true) := by
  induction h with
  | enter => exact ⟨by simp, fun _ => unconfigured_wifiConnect ssid password⟩
  | step _ hstep ih =>
      obtain ⟨hconfigs, hpc⟩ := ih
      rcases passed_of_connectStep hstep with ⟨hpassed, hstays⟩ | hpassed
      · rw [hpassed, Option.toList_none, List.append_nil]
        exact ⟨hconfigs, fun hnil => hstays (hpc hnil)⟩
      · rw [hpassed]
        refine ⟨?_, by simp⟩
        intro config hmem
        rcases List.mem_append.mp hmem with hold | hnew
        · exact hconfigs config hold
        · simpa using hnew

/-- A rejected call is over. -/
theorem Call.rejected (hlimits : ¬ WithinLimits ssid password)
    (h : Call task force ssid password configs pc) : configs = [] ∧ pc = .returned false := by
  induction h with
  | enter => exact ⟨rfl, if_neg hlimits⟩
  | step _ hstep ih =>
      obtain ⟨_, rfl⟩ := ih
      cases hstep

/-- An accepted call may find the lock free and no connection. -/
theorem call_configures (task : Task) (force : Bool) (hlimits : WithinLimits ssid password) :
    Call task force ssid password [.cfg ssid password] (.disconnect 0 .clearBits) := by
  let idle : Wifi := ⟨false, none, .none, .zero⟩
  have henter : Call task force ssid password [] .takeLock := by
    have hpc : wifiConnect ssid password = .takeLock := if_pos hlimits
    exact hpc ▸ .enter
  have hlocked : connectStep task force (.cfg ssid password) .proceed idle .takeLock =
      some ({ idle with lock := some task }, [], .check) := rfl
  have hconfigured : connectStep task force (.cfg ssid password) .proceed
      { idle with lock := some task } .check =
        some ({ idle with lock := some task, config := .cfg ssid password }, [],
          .disconnect 0 .clearBits) := by
    simp [connectStep, idle]
  exact (henter.step hlocked).step hconfigured

end Call

/-- `wifi_connect` leaves credentials unaltered if and only if it rejects them or
they are shorter than the fields they go into. -/
theorem unaltered_iff (task : Task) (force : Bool) (ssid password : CString) :
    Unaltered task force ssid password ↔
      ¬ WithinLimits ssid password ∨
        (ssid.length < wifiMaxSsidLength ∧ password.length < wifiMaxPassLength) := by
  constructor
  · intro hunaltered
    by_cases hlimits : WithinLimits ssid password
    · right
      have hcall := call_configures task force hlimits
      have hholds := (hunaltered _ _ hcall).1 (.cfg ssid password) List.mem_cons_self
      exact (holds_cfg_iff ssid password).mp hholds
    · exact .inl hlimits
  · intro h configs pc hcall
    rcases h with hlimits | hshort
    · obtain ⟨rfl, rfl⟩ := hcall.rejected hlimits
      simp
    · obtain ⟨hconfigs, hpc⟩ := hcall.configs_eq
      refine ⟨fun config hmem => ?_, ?_⟩
      · rw [hconfigs config hmem]
        exact (holds_cfg_iff ssid password).mpr hshort
      · rintro hnil rfl
        cases hpc hnil

/-- A string of `n` letters. -/
def letters (n : Nat) : CString where
  bytes := List.replicate n 97
  nonzero := by
    intro b hb
    rw [List.eq_of_mem_replicate hb]
    decide

/-- The longest SSID and the longest password, which the check lets through, both
lose their last byte. -/
theorem longest_altered :
    (WithinLimits (letters 32) (letters 8) ∧ ¬ Unaltered .console true (letters 32) (letters 8)) ∧
      WithinLimits (letters 8) (letters 64) ∧
        ¬ Unaltered .console true (letters 8) (letters 64) := by
  have hssid : WithinLimits (letters 32) (letters 8) := by decide
  have hpassword : WithinLimits (letters 8) (letters 64) := by decide
  refine ⟨⟨hssid, fun hunaltered => ?_⟩, hpassword, fun hunaltered => ?_⟩
  · have hholds := (hunaltered _ _ (call_configures .console true hssid)).1 _ List.mem_cons_self
    exact absurd ((holds_cfg_iff _ _).mp hholds).1 (by decide)
  · have hholds := (hunaltered _ _ (call_configures .console true hpassword)).1 _
      List.mem_cons_self
    exact absurd ((holds_cfg_iff _ _).mp hholds).2 (by decide)

end GbPlay.Esp.Network.Credentials
