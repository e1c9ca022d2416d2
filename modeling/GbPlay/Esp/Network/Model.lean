import GbPlay.Esp.Network.History
import GbPlay.Library.Runs

/-!
# The network manager and its surroundings

Three tasks take turns in steps between which any other may run: the event loop,
which runs the handlers of queued events one after the other; the network
manager; and the console, from which the user connects and disconnects.  The
Wi-Fi driver may queue events and refuse or time out a request at any moment.

The event loop overwrites `prev_ssid`, which no lock guards, while the manager may be
comparing it: where the manager passes the array itself, each of the string functions
that read it is a step.

Nothing but the log, which records what was observed, newest first, is not in
the source.
-/

namespace GbPlay.Esp.Network.Model

open GbPlay.Library
open GbPlay.Esp.SavedNetworks
open GbPlay.Esp.Network.History

def maxConnectionRetryCount : Nat := 3

def idleScanPeriodSeconds : Nat := 30

def scanListSize : Nat := 10

/-- An SSID as the hardware reports it. -/
structure Ssid where
  name : CString
  fits : name.length ≤ wifiMaxSsidLength
  deriving DecidableEq

/-! ## Events and event groups -/

/-- `network_event` -/
inductive NetworkEventId
  | dropped
  | left
  | connected
  deriving DecidableEq

/-- The bits of an event group. -/
structure EventBits where
  dropped : Bool
  left : Bool
  connected : Bool
  deriving DecidableEq

namespace EventBits

def none : EventBits := ⟨false, false, false⟩

def any (b : EventBits) : Bool := b.dropped || b.left || b.connected

/-- `xEventGroupSetBits` -/
def set (b : EventBits) : NetworkEventId → EventBits
  | .dropped => { b with dropped := true }
  | .left => { b with left := true }
  | .connected => { b with connected := true }

end EventBits

/-- A `NETWORK_EVENT`.  Only CONNECTED is posted with its SSID; that of the
others, the network the driver was disconnected from, is no handler's input. -/
structure NetworkEvent where
  id : NetworkEventId
  ssid : Ssid
  deriving DecidableEq

inductive Reason
  | assocLeave
  | other
  deriving DecidableEq

inductive DriverEvent
  | staDisconnected (ssid : Ssid) (reason : Reason)
  | staGotIp
  deriving DecidableEq

inductive Event
  | driver (event : DriverEvent)
  | network (event : NetworkEvent)
  deriving DecidableEq

/-! ## What can be observed -/

inductive Task
  | manager
  | console
  deriving DecidableEq

/-- Why the manager blocks a network. -/
inductive Cause
  | failed
  | left
  deriving DecidableEq

inductive Action
  /-- The manager's `_on_connect` has copied the SSID. -/
  | announced (ssid : CString)
  /-- A handler of the manager has set the bit of an event. -/
  | delivered (event : NetworkEvent)
  /-- The manager's wait has returned and cleared these bits. -/
  | woke (bits : EventBits)
  /-- `_ensure_network_info` has found or made the entry for this SSID. -/
  | ensured (ssid : CString)
  /-- The manager calls `wifi_connect`. -/
  | called (ssid : CString) (time : Nat)
  /-- `wifi_connect` gives up because of another connection. -/
  | foundConnected (task : Task)
  /-- The outcome of a call of `esp_wifi_connect`, with the SSID it was configured for. -/
  | attempted (task : Task) (ssid : CString) (didConnect : Bool)
  | blocked (ssid : CString) (cause : Cause) (time : Nat)
  | cleared
  deriving DecidableEq

/-! ## Connecting and disconnecting -/

/-- `wifi_sta_config_t`.  Its arrays need no terminator. -/
structure StaConfig where
  ssid : CharArray 32
  password : CharArray 64

namespace StaConfig

def zero : StaConfig := ⟨.zero _, .zero _⟩

/-- The `cfg` of `wifi_connect`. -/
def cfg (ssid password : CString) : StaConfig where
  ssid := zero.ssid.snprintf ssid
  password := zero.password.snprintf password

/-- A name as long as an SSID can be loses its last byte to the terminator. -/
theorem str_cfg_ssid {ssid password : CString} :
    (cfg ssid password).ssid.str = ssid ↔ ssid.length < wifiMaxSsidLength := by
  rw [cfg, CharArray.str_snprintf]
  constructor
  · intro heq
    rw [← heq]
    exact Nat.lt_succ_of_le (ssid.length_take_le 31)
  · intro hlt
    exact CString.take_of_length_le (Nat.le_of_lt_succ hlt)

end StaConfig

/-- What `hardware/wifi.c` shares between the tasks. -/
structure Wifi where
  /-- `s_is_connected` -/
  isConnected : Bool
  /-- The holder of `s_wifi_lock`. -/
  lock : Option Task
  /-- `s_wifi_event_group` -/
  bits : EventBits
  /-- The driver's own, which `esp_wifi_connect` uses. -/
  config : StaConfig

/-- How the driver, the scan or the clock answers a task. -/
inductive Answer
  | proceed
  | refused
  | timedOut
  | scanned (aps : List Ssid)

/-- Where a task is in `_disconnect`. -/
inductive Disconnect
  | clearBits
  | test
  | waitBits
  deriving DecidableEq

/-- `none` after the last step. -/
def disconnectStep (s : Wifi) : Disconnect → Option (Wifi × Option Disconnect)
  | .clearBits => some ({ s with bits := .none }, some .test)
  | .test =>
      -- `esp_wifi_disconnect` is answered by an event of the driver
      if s.isConnected then some (s, some .waitBits) else some (s, none)
  | .waitBits =>
      if s.bits.dropped || s.bits.left then
        some ({ s with bits := { s.bits with dropped := false, left := false } }, none)
      else none

/-- Where a task is in `wifi_connect`, after the check of the lengths. -/
inductive Connect
  | takeLock
  | check
  | disconnect (i : Nat) (pc : Disconnect)
  | clearBits (i : Nat)
  | start (i : Nat)
  | waitBits (i : Nat)
  | giveLock (didConnect : Bool)
  | returned (didConnect : Bool)
  deriving DecidableEq

/-- The head of the loop over the attempts, after attempt `i` has failed. -/
def nextAttempt (i : Nat) : Connect :=
  if i + 1 < maxConnectionRetryCount then .disconnect (i + 1) .clearBits else .giveLock false

/-- One step of `wifi_connect`, with what it lets one observe. -/
def connectStep (task : Task) (force : Bool) (cfg : StaConfig) (answer : Answer) (s : Wifi) :
    Connect → Option (Wifi × List Action × Connect)
  | .takeLock =>
      if s.lock = none then some ({ s with lock := some task }, [], .check) else none
  | .check =>
      if !force && s.isConnected then some (s, [.foundConnected task], .giveLock false)
      else some ({ s with config := cfg }, [], .disconnect 0 .clearBits)
  | .disconnect i pc =>
      match disconnectStep s pc with
      | some (s', some pc') => some (s', [], .disconnect i pc')
      | some (s', none) => some (s', [], .clearBits i)
      | none => none
  | .clearBits i => some ({ s with bits := .none }, [], .start i)
  | .start i =>
      match answer with
      | .refused => some (s, [.attempted task s.config.ssid.str false], .giveLock false)
      | _ => some (s, [], .waitBits i)
  | .waitBits i =>
      if s.bits.any then
        let pc := if s.bits.connected then .giveLock true else nextAttempt i
        some ({ s with bits := .none }, [.attempted task s.config.ssid.str s.bits.connected], pc)
      else
        match answer with
        | .timedOut => some (s, [.attempted task s.config.ssid.str false], nextAttempt i)
        | _ => none
  | .giveLock didConnect => some ({ s with lock := none }, [], .returned didConnect)
  | .returned _ => none

/-- The entry of `wifi_connect`, which rejects what does not fit the driver's
configuration. -/
def wifiConnect (ssid password : CString) : Connect :=
  if WithinLimits ssid password then .takeLock else .returned false

/-! ## The tasks -/

/-- Where the event loop is in the handlers. -/
inductive Handler
  | idle
  /-- `wifi.c`, `_on_disconnect` -/
  | onDisconnect (event : NetworkEvent)
  /-- `wifi.c`, `_on_connect` -/
  | onGotIp
  | onConnect (event : NetworkEvent)
  /-- both, after `_set_connection_status` -/
  | setBits (event : NetworkEvent)
  | post (event : NetworkEvent)
  /-- `network_manager.c`, `_on_connect` -/
  | copySsid (event : NetworkEvent)
  /-- all handlers of `network_manager.c` -/
  | setConnectionBits (event : NetworkEvent)
  deriving DecidableEq

/-- What the manager does when `_try_connect` returns false. -/
inductive Next
  /-- called by `_try_connect_prev` -/
  | prev
  /-- called by `_try_autoconnect`, with the access points still to try -/
  | auto (rest : List Ssid)

inductive Manager
  /-- at `xEventGroupWaitBits` -/
  | waiting
  | woken (bits : EventBits)
  /-- at the head of the loop that reconnects -/
  | reconnect
  | tryConnectPrev
  /-- In `wifi_get_saved_network` for `prev_ssid`, at network `i` of the table, which
  `s_wifi_storage_lock` keeps as it is. -/
  | getSavedNetwork (savedNetworks : WifiSavedNetworkInfo) (i : Nat)
  | tryConnect (creds : WifiNetworkCredentials) (next : Next)
  | connecting (info : Fin networkHistorySize) (creds : WifiNetworkCredentials) (next : Next)
      (pc : Connect)
  | scan
  | scanning
  | tryAutoconnect (aps : List Ssid)
  | sleeping (wakeAt : Nat)
  /-- In `_ensure_network_info` for `prev_ssid`, at entry `i`. -/
  | ensureNetworkInfo (i : Nat)
  /-- at the `_block_network` of LEFT -/
  | blockNetwork (info : Fin networkHistorySize)

/-- Where the console is in `wifi_disconnect`. -/
inductive Leave
  | takeLock
  | disconnect (pc : Disconnect)
  | giveLock
  deriving DecidableEq

inductive Console
  | idle
  | connecting (ssid password : CString) (save : Bool) (pc : Connect)
  | disconnecting (pc : Leave)

inductive Command
  | connect (ssid password : CString) (save : Bool)
  | disconnect
  | forget (ssid : CString)

structure World where
  now : Nat
  wifi : Wifi
  savedNetworks : WifiSavedNetworkInfo
  /-- `s_connection_event_group` -/
  connectionBits : EventBits
  history : NetworkHistory
  queue : List Event
  handler : Handler
  manager : Manager
  console : Console
  log : List Action

namespace World

/-- Set the PC of the manager. -/
def goto (w : World) (manager : Manager) : World := { w with manager }

def note (w : World) (actions : List Action) : World := { w with log := actions ++ w.log }

end World

/-! ## The event loop -/

/-- One step of the handler that is running; `ap` is the access point that
`esp_wifi_sta_get_ap_info` reports, if any. -/
def handlerStep (w : World) (ap : Option Ssid) : Option World :=
  match w.handler with
  | .idle => none
  | .onDisconnect event =>
      some { w with wifi := { w.wifi with isConnected := false }, handler := .setBits event }
  | .onGotIp =>
      match ap with
      | some ssid => some { w with handler := .onConnect ⟨.connected, ssid⟩ }
      | none => some { w with handler := .idle }
  | .onConnect event =>
      some { w with wifi := { w.wifi with isConnected := true }, handler := .setBits event }
  | .setBits event =>
      some { w with
        wifi := { w.wifi with bits := w.wifi.bits.set event.id }
        handler := .post event }
  | .post event => some { w with queue := w.queue ++ [.network event], handler := .idle }
  | .copySsid event =>
      some { w with
        history := w.history.setPrevSsid event.ssid.name
        handler := .setConnectionBits event
        log := .announced event.ssid.name :: w.log }
  | .setConnectionBits event =>
      some { w with
        connectionBits := w.connectionBits.set event.id
        handler := .idle
        log := .delivered event :: w.log }

/-- The handler of an event. -/
def handlerOf : Event → Handler
  | .driver (.staDisconnected ssid .assocLeave) => .onDisconnect ⟨.left, ssid⟩
  | .driver (.staDisconnected ssid .other) => .onDisconnect ⟨.dropped, ssid⟩
  | .driver .staGotIp => .onGotIp
  | .network event =>
      match event.id with
      | .connected => .copySsid event
      | _ => .setConnectionBits event

/-- Take the next event when no handler is running. -/
def dispatch (w : World) : Option World :=
  match w.handler, w.queue with
  | .idle, event :: queue => some { w with queue, handler := handlerOf event }
  | _, _ => none

/-! ## The network manager -/

/-- `wifi_get_saved_network` -/
def lookup (w : World) (ssid : CString) : Option WifiNetworkCredentials :=
  (w.savedNetworks.getSavedNetwork ssid).map w.savedNetworks.network

/-- `_ensure_network_info` -/
def ensure (w : World) (ssid : CString) : World × Fin networkHistorySize :=
  let (history, info) := w.history.ensureNetworkInfo ssid
  (World.note { w with history } [.ensured ssid], info)

/-- `_block_network` -/
def block (w : World) (info : Fin networkHistorySize) (cause : Cause) : World :=
  World.note { w with history := w.history.blockNetwork info w.now }
    [.blocked (w.history.usedNetworks info).ssid.str cause w.now]

/-- Where the manager goes on when `_try_connect` returns false. -/
def Next.manager : Next → Manager
  | .prev => .scan
  | .auto rest => .tryAutoconnect rest

/-- The body of `task_network_manager` after its wait. -/
def handleBits (w : World) (bits : EventBits) : World :=
  if bits.dropped then
    -- could have been a false alarm
    if w.wifi.isConnected then w.goto .waiting else w.goto .reconnect
  else if bits.left then w.goto (.ensureNetworkInfo 0)
  else if bits.connected then
    (World.note { w with history := w.history.clearNetworkHistory } [.cleared]).goto .waiting
  else w.goto .waiting

/-- `_try_connect`, up to the call of `wifi_connect`. -/
def tryConnect (w : World) (creds : WifiNetworkCredentials) (next : Next) : World :=
  let (w', info) := ensure w creds.ssid.str
  if (w'.history.usedNetworks info).blockedUntil > w'.now then
    -- skipped due to temporary block
    w'.goto next.manager
  else
    (w'.note [.called creds.ssid.str w'.now]).goto
      (.connecting info creds next (wifiConnect creds.ssid.str creds.pass.str))

/-- The loop of `_get_saved_network` at network `i`. -/
def compareSaved (w : World) (savedNetworks : WifiSavedNetworkInfo) (i : Nat) : Manager :=
  if i < savedNetworks.count then
    if (savedNetworks.network i).ssid.str = w.history.prevSsid.str then
      .tryConnect (savedNetworks.network i) .prev
    else .getSavedNetwork savedNetworks (i + 1)
  else .scan

/-- The loop of `_ensure_network_info` at entry `i`, and what follows it. -/
def comparePrev (w : World) (i : Nat) : World :=
  if hi : i < networkHistorySize then
    if (w.history.usedNetworks ⟨i, hi⟩).ssid.str = w.history.prevSsid.str then
      (w.note [.ensured w.history.prevSsid.str]).goto (.blockNetwork ⟨i, hi⟩)
    else w.goto (.ensureNetworkInfo (i + 1))
  else
    let (history, info) := w.history.insertNetworkInfo w.history.prevSsid.str
    (World.note { w with history } [.ensured w.history.prevSsid.str]).goto (.blockNetwork info)

def managerStep (w : World) (answer : Answer) : Option World :=
  match w.manager with
  | .waiting =>
      if w.connectionBits.any then
        some ((World.note { w with connectionBits := .none } [.woke w.connectionBits]).goto
          (.woken w.connectionBits))
      else none
  | .woken bits => some (handleBits w bits)
  | .reconnect => some (w.goto (if w.wifi.isConnected then .waiting else .tryConnectPrev))
  | .tryConnectPrev => some (w.goto (.getSavedNetwork w.savedNetworks 0))
  | .getSavedNetwork savedNetworks i => some (w.goto (compareSaved w savedNetworks i))
  | .tryConnect creds next => some (tryConnect w creds next)
  | .connecting _ _ _ (.returned true) => some (w.goto .waiting)
  | .connecting info _ next (.returned false) => some ((block w info .failed).goto next.manager)
  | .connecting info creds next pc =>
      match connectStep .manager false (.cfg creds.ssid.str creds.pass.str) answer w.wifi pc with
      | some (wifi, actions, pc') =>
          some ((World.note { w with wifi } actions).goto (.connecting info creds next pc'))
      | none => none
  | .scan =>
      if w.wifi.lock = none then
        some (World.goto { w with wifi := { w.wifi with lock := some .manager } } .scanning)
      else none
  | .scanning =>
      match answer with
      | .scanned aps =>
          if aps.length ≤ scanListSize then
            some (World.goto { w with wifi := { w.wifi with lock := none } } (.tryAutoconnect aps))
          else none
      | _ => none
  | .tryAutoconnect [] =>
      some (w.goto (.sleeping (w.now + idleScanPeriodSeconds * 1000 * 1000)))
  | .tryAutoconnect (ap :: rest) =>
      match lookup w ap.name with
      | none => some (w.goto (.tryAutoconnect rest))
      | some creds => some (w.goto (.tryConnect creds (.auto rest)))
  | .sleeping wakeAt => if wakeAt ≤ w.now then some (w.goto .reconnect) else none
  | .ensureNetworkInfo i => some (comparePrev w i)
  | .blockNetwork info => some ((block w info .left).goto .waiting)

/-! ## The console -/

def consoleStep (w : World) (answer : Answer) : Option World :=
  match w.console with
  | .idle => none
  | .connecting ssid password save (.returned didConnect) =>
      if didConnect && save then
        let savedNetworks := (w.savedNetworks.save ssid password).getD w.savedNetworks
        some { w with savedNetworks, console := .idle }
      else some { w with console := .idle }
  | .connecting ssid password save pc =>
      match connectStep .console true (.cfg ssid password) answer w.wifi pc with
      | some (wifi, actions, pc') =>
          some (World.note { w with wifi, console := .connecting ssid password save pc' } actions)
      | none => none
  | .disconnecting .takeLock =>
      if w.wifi.lock = none then
        some { w with
          wifi := { w.wifi with lock := some .console }
          console := .disconnecting (.disconnect .clearBits) }
      else none
  | .disconnecting (.disconnect pc) =>
      match disconnectStep w.wifi pc with
      | some (wifi, some pc') =>
          some { w with wifi, console := .disconnecting (.disconnect pc') }
      | some (wifi, none) => some { w with wifi, console := .disconnecting .giveLock }
      | none => none
  | .disconnecting .giveLock =>
      some { w with wifi := { w.wifi with lock := none }, console := .idle }

def command (w : World) (c : Command) : Option World :=
  match w.console with
  | .idle =>
      match c with
      | .connect ssid password save =>
          some { w with console := .connecting ssid password save (wifiConnect ssid password) }
      | .disconnect => some { w with console := .disconnecting .takeLock }
      | .forget ssid =>
          some { w with savedNetworks := (w.savedNetworks.forget ssid).getD w.savedNetworks }
  | _ => none

/-! ## The whole system -/

inductive Label
  | tick (d : Nat)
  | driver (event : DriverEvent)
  | dispatch
  | handler (ap : Option Ssid)
  | manager (answer : Answer)
  | console (answer : Answer)
  | command (c : Command)

def step (w : World) : Label → Option World
  | .tick d => some { w with now := w.now + d }
  | .driver event => some { w with queue := w.queue ++ [.driver event] }
  | .dispatch => dispatch w
  | .handler ap => handlerStep w ap
  | .manager answer => managerStep w answer
  | .console answer => consoleStep w answer
  | .command c => command w c

/-- After `wifi_initialize` and `task_network_manager_start`, which sets DROPPED
to wake the task up. -/
def start (savedNetworks : WifiSavedNetworkInfo) : World where
  now := 0
  wifi := ⟨false, none, .none, .zero⟩
  savedNetworks
  connectionBits := EventBits.none.set .dropped
  history := .zero
  queue := []
  handler := .idle
  manager := .waiting
  console := .idle
  log := []

end GbPlay.Esp.Network.Model
