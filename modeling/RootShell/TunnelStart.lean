import RootShell.ByteText
import RootShell.Interleaving

/-!
The global tunnel state (vpntunnel/bridge.go, vpntunnel/tailnet_api.go): one tunnel at a
time, started and stopped under one lock. A start that is given up half way has already
replaced some of the globals.
-/
namespace TunnelStart
open ByteLines ByteText Interleaving

section Settings

inductive Transport where
  | ssh
  | tssh
  | direct
  | tailscale
  deriving DecidableEq

def Transport.name : Transport → Bytes
  | .ssh => text "ssh"
  | .tssh => text "tssh"
  | .direct => text "direct"
  | .tailscale => text "tailscale"

structure VPNTunnelConfig (T : Type) where
  transportType : T
  tsshRelayRequired : Bool
  tsshMode : Bytes
  tsshMTU : Int
  socks5Address : Bytes
  directBoundInterface : Int
  mtu : Int
  blockQUIC : Bool
  deriving DecidableEq

abbrev Config := VPNTunnelConfig Transport

inductive Failure where
  | alreadyRunning
  | parseConfig (err : Bytes)
  | invalidTransport (transportType : Bytes)
  | relayClosed
  | relayTransport (mode : Bytes)
  | relayBudget (mtu : Int) (mode : Bytes) (minimum : Nat)
  | relayMTU (mtu : Int)
  | relayRequired
  | tsshConnect (err : Bytes)
  | socksMissing
  | unsupportedTransport (transport : Transport)
  | createStack (err : Bytes)
  | tailscaleNotBuilt
  | needsTailscale (transport : Transport)
  | parseTailscale (err : Bytes)
  | noStore
  | startTailscale (err : Bytes)
  deriving DecidableEq

def Failure.message (quote : Bytes → Bytes) : Failure → Bytes
  | .alreadyRunning => text "vpntunnel: tunnel already running"
  | .parseConfig err => text "vpntunnel: parse config: " ++ err
  | .invalidTransport transportType => text "vpntunnel: invalid transport type: " ++ quote transportType
  | .relayClosed => text "jump transport is closed"
  | .relayTransport mode => text "unsupported relay transport " ++ quote mode
  | .relayBudget mtu mode minimum =>
    text "jump host datagram budget " ++ itoa mtu.toNat ++ text " cannot carry " ++ mode ++ text " packets (minimum " ++
      itoa minimum ++ text "); increase the jump transport MTU"
  | .relayMTU mtu => text "target MTU must match relay budget: " ++ itoa mtu.toNat
  | .relayRequired => text "tssh relay is required"
  | .tsshConnect err => text "vpntunnel: tssh connect: " ++ err
  | .socksMissing => text "vpntunnel: ssh mode requires socks5Address"
  | .unsupportedTransport transport => text "vpntunnel: unsupported transport: " ++ transport.name
  | .createStack err => text "vpntunnel: create stack: " ++ err
  | .tailscaleNotBuilt => text "vpntunnel: Tailscale is not available in this build"
  | .needsTailscale transport =>
    text "vpntunnel: StartTailscaleTunnel needs transportType tailscale, got " ++ quote transport.name
  | .parseTailscale err => text "vpntunnel: parse tailscale config: " ++ err
  | .noStore => text "vpntunnel: tailscale needs a state store"
  | .startTailscale err => text "vpntunnel: start tailscale: " ++ err

structure Libraries (R : Type) where
  unmarshal : Bytes → Except Bytes (VPNTunnelConfig Bytes)
  maxDatagramSize : R → UInt16
  toStatus : R → Bool → Bytes → Bytes
  tailscaleBuilt : Bool

def transport? (transportType : Bytes) : Option Transport :=
  [Transport.ssh, .tssh, .direct, .tailscale].find? (·.name = transportType)

def VPNTunnelConfig.typed (cfg : VPNTunnelConfig Bytes) (transport : Transport) : Config where
  transportType := transport
  tsshRelayRequired := cfg.tsshRelayRequired
  tsshMode := cfg.tsshMode
  tsshMTU := cfg.tsshMTU
  socks5Address := cfg.socks5Address
  directBoundInterface := cfg.directBoundInterface
  mtu := cfg.mtu
  blockQUIC := cfg.blockQUIC

def parseConfig {R : Type} (lib : Libraries R) (configJSON : Bytes) : Except Failure Config :=
  match lib.unmarshal configJSON with
  | .error err => .error (.parseConfig err)
  | .ok cfg =>
    match transport? cfg.transportType with
    | none => .error (.invalidTransport cfg.transportType)
    | some transport => .ok (cfg.typed transport)

def ipv4Overhead : Int := 28

def minTunMTU : Int := 1280

def minQUICPayload : Int := 1200

def tailnetMTU : Int := 1280

def autoResolve (cfg : Config) (datagramBudget : Int) : Config :=
  if cfg.mtu ≤ 0 then
    if 0 < datagramBudget then
      if minQUICPayload ≤ datagramBudget then { cfg with mtu := max (datagramBudget + ipv4Overhead) minTunMTU }
      else { cfg with mtu := minTunMTU, blockQUIC := true }
    else { cfg with mtu := 1500 }
  else cfg

def finalFallback (cfg : Config) : Config := if cfg.mtu ≤ 0 then { cfg with mtu := 1500 } else cfg

def resolveRelayMTU (requested budget : Int) (mode : Bytes) : Except Failure Int :=
  let mtu := min (if requested ≤ 0 then 1400 else requested) budget
  match if mode = text "QUIC" then some 1200 else if mode = text "KCP" then some 100 else none with
  | none => .error (.relayTransport mode)
  | some minimum =>
    if mtu < (minimum : Nat) ∨ 65535 < mtu then .error (.relayBudget mtu mode minimum) else .ok mtu

end Settings

section State
variable {R : Type}

structure Hop (R : Type) where
  ref : R
  client : Option R

inductive Event (R : Type) where
  | clientClosed (client : R)
  | stackClosed (stack : R)
  | tailnetClosed (engine : R)
  | pathCancelled (path : R)
  | ready (callback : R)
  | disconnected (callback : R) (reason : Bytes)
  deriving DecidableEq

structure Globals (R : Type) where
  globalStack : Option R
  globalStats : Option R
  globalConfig : Option Config
  globalCB : Option R
  globalRelay : List (Hop R)
  globalClient : Option R
  globalTailnet : Option R
  globalTailnetPath : Option R
  closedRelays : List R
  events : List (Event R)

def initial : Globals R where
  globalStack := none
  globalStats := none
  globalConfig := none
  globalCB := none
  globalRelay := []
  globalClient := none
  globalTailnet := none
  globalTailnetPath := none
  closedRelays := []
  events := []

inductive Dialer (R : Type) where
  | tsshDialer (client : R)
  | socks5Dialer (proxyAddr : Bytes)
  | directDialer (boundIf : Int)

structure Route (R : Type) where
  cfg : Config
  client : Option R
  tcpDial : Dialer R
  udpDial : Option (Dialer R)
  datagramBudget : Int

structure StartCall (R : Type) where
  configJSON : Bytes
  callback : Option R
  relay : List (Hop R)
  stats : R
  connectTSSH : Config → Option R → Except Bytes R
  newTunnelStack : Route R → Except Bytes R

structure TailscaleCall (R : Type) where
  configJSON : Bytes
  callback : Option R
  store : Option R
  stats : R
  extra : Except Bytes Unit
  newTailnetPath : R
  startTailnetEngine : Except Bytes R

namespace Globals
variable (s : Globals R)

def tell (events : List (Event R)) : Globals R := { s with events := s.events ++ events }

def dropClient : Globals R :=
  { s with globalClient := none }.tell (s.globalClient.toList.map .clientClosed)

variable [DecidableEq R]

/-- Tears down a hop, then every parent. -/
def closeRelay (s : Globals R) : List (Hop R) → Globals R
  | [] => s
  | hop :: parents =>
    if hop.ref ∈ s.closedRelays then s
    else closeRelay ({ s with closedRelays := hop.ref :: s.closedRelays }.tell
      (hop.client.toList.map .clientClosed)) parents

def connectedClient : List (Hop R) → Except Failure R
  | [] => .error .relayClosed
  | hop :: _ =>
    match hop.client with
    | none => .error .relayClosed
    | some client => if hop.ref ∈ s.closedRelays then .error .relayClosed else .ok client

def effectiveMTU (lib : Libraries R) (relay : List (Hop R)) (requested : Int) (mode : Bytes) : Except Failure Int := do
  let client ← s.connectedClient relay
  resolveRelayMTU requested (lib.maxDatagramSize client).toNat mode

def relayProxy (lib : Libraries R) (relay : List (Hop R)) (cfg : Config) : Except Failure (Option R) :=
  if relay.isEmpty then .ok none
  else do
    let proxy ← s.connectedClient relay
    let mtu ← s.effectiveMTU lib relay cfg.tsshMTU cfg.tsshMode
    if mtu ≠ cfg.tsshMTU then .error (.relayMTU mtu) else .ok (some proxy)

def connectTransport (lib : Libraries R) (call : StartCall R) (cfg : Config) : Except Failure (Route R) :=
  match cfg.transportType with
  | .tssh => do
    let proxy ← s.relayProxy lib call.relay cfg
    if cfg.tsshRelayRequired ∧ proxy.isNone then .error .relayRequired
    else
      match call.connectTSSH cfg proxy with
      | .error err => .error (.tsshConnect err)
      | .ok c =>
        let datagramBudget : Int := (lib.maxDatagramSize c).toNat
        .ok {
          cfg := autoResolve cfg datagramBudget
          client := some c
          tcpDial := .tsshDialer c
          udpDial := some (.tsshDialer c)
          datagramBudget := datagramBudget }
  | .ssh =>
    if cfg.socks5Address = [] then .error .socksMissing
    else .ok {
      cfg := cfg
      client := none
      tcpDial := .socks5Dialer cfg.socks5Address
      udpDial := none
      datagramBudget := 0 }
  | .direct => .ok {
      cfg := cfg
      client := none
      tcpDial := .directDialer cfg.directBoundInterface
      udpDial := some (.directDialer cfg.directBoundInterface)
      datagramBudget := 0 }
  | .tailscale => .error (.unsupportedTransport .tailscale)

def assigned (call : StartCall R) (cfg : Config) : Globals R :=
  { s with globalStats := some call.stats, globalConfig := some cfg, globalCB := call.callback }

def connected (route : Route R) : Globals R :=
  { s with
    globalConfig := some (finalFallback route.cfg)
    globalClient := route.client.or s.globalClient }

def installed (call : StartCall R) (ts : R) : Globals R :=
  { s with globalStack := some ts, globalRelay := call.relay }.tell (call.callback.toList.map .ready)

def startTunnelWithRelay (lib : Libraries R) (call : StartCall R) : Globals R × Except Failure Unit :=
  if s.globalStack.isSome then (s, .error .alreadyRunning)
  else
    match parseConfig lib call.configJSON with
    | .error e => (s, .error e)
    | .ok cfg =>
      -- From here on an error leaves what has been assigned.
      match (s.assigned call cfg).connectTransport lib call cfg with
      | .error e => (s.assigned call cfg, .error e)
      | .ok route =>
        match call.newTunnelStack { route with cfg := finalFallback route.cfg } with
        | .error err => (((s.assigned call cfg).connected route).dropClient, .error (.createStack err))
        | .ok ts => (((s.assigned call cfg).connected route).installed call ts, .ok ())

def startTailscaleTunnel (lib : Libraries R) (call : TailscaleCall R) : Globals R × Except Failure Unit :=
  if lib.tailscaleBuilt = false then (s, .error .tailscaleNotBuilt)
  else if s.globalStack.isSome then (s, .error .alreadyRunning)
  else
    match parseConfig lib call.configJSON with
    | .error e => (s, .error e)
    | .ok cfg =>
      if cfg.transportType ≠ .tailscale then (s, .error (.needsTailscale cfg.transportType))
      else
        match call.extra with
        | .error err => (s, .error (.parseTailscale err))
        | .ok _ =>
          if call.store.isNone then (s, .error .noStore)
          else
            match call.startTailnetEngine with
            | .error err => (s.tell [.stackClosed call.newTailnetPath], .error (.startTailscale err))
            | .ok eng =>
              ({ s with
                globalStack := some call.newTailnetPath
                globalStats := some call.stats
                globalConfig := some { cfg with mtu := tailnetMTU }
                globalCB := call.callback
                globalTailnet := some eng
                globalTailnetPath := some call.newTailnetPath }.tell (call.callback.toList.map .ready), .ok ())

def stopTailnetLocked : Globals R :=
  { s with globalTailnet := none, globalTailnetPath := none }.tell
    (s.globalTailnetPath.toList.map Event.pathCancelled ++ s.globalTailnet.toList.map Event.tailnetClosed)

def stopTunnel : Globals R :=
  match s.globalStack with
  | none => s
  | some ts =>
    let s := s.dropClient
    let s := { s.closeRelay s.globalRelay with globalRelay := [] }
    let s := s.stopTailnetLocked
    { s with globalStack := none, globalCB := none, globalStats := none, globalConfig := none }.tell
      (.stackClosed ts :: s.globalCB.toList.map fun cb => .disconnected cb (text "user requested stop"))

end Globals

inductive Status (R : Type) where
  | noTunnel
  | report (stats : R) (connected : Bool) (transportType : Bytes)
  deriving DecidableEq

def Globals.getStatus (s : Globals R) : Status R :=
  match s.globalStats with
  | none => .noTunnel
  | some stats => .report stats s.globalStack.isSome (s.globalConfig.elim [] (·.transportType.name))

def Status.json (lib : Libraries R) : Status R → Bytes
  | .noTunnel => text "\x7b\"connected\":false\x7d"
  | .report stats connected transportType => lib.toStatus stats connected transportType

def Globals.getEffectiveMTU (s : Globals R) : Int := s.globalConfig.elim 0 (·.mtu)

inductive Call (R : Type) where
  | start (call : StartCall R)
  | startTailscale (call : TailscaleCall R)
  | stop
  | closeRelay (relay : List (Hop R))

variable [DecidableEq R]

def step (lib : Libraries R) (s : Globals R) : Call R → Option (Globals R)
  | .start call => some (s.startTunnelWithRelay lib call).1
  | .startTailscale call => some (s.startTailscaleTunnel lib call).1
  | .stop => some s.stopTunnel
  | .closeRelay relay => some (s.closeRelay relay)

end State

section Starts
variable {R : Type} [DecidableEq R] {lib : Libraries R} {s t : Globals R} {call : StartCall R}

inductive StartMove (lib : Libraries R) (s : Globals R) (call : StartCall R) :
    Globals R × Except Failure Unit → Prop where
  | running (stack : s.globalStack.isSome = true) : StartMove lib s call (s, .error .alreadyRunning)
  | rejected {e : Failure} (idle : s.globalStack = none) (parsed : parseConfig lib call.configJSON = .error e) :
      StartMove lib s call (s, .error e)
  | unconnected {e : Failure} {cfg : Config} (idle : s.globalStack = none)
      (parsed : parseConfig lib call.configJSON = .ok cfg) : StartMove lib s call (s.assigned call cfg, .error e)
  | unstacked {e : Failure} {cfg : Config} {route : Route R} (idle : s.globalStack = none)
      (parsed : parseConfig lib call.configJSON = .ok cfg) :
      StartMove lib s call (((s.assigned call cfg).connected route).dropClient, .error e)
  | started {cfg : Config} {route : Route R} {ts : R} (idle : s.globalStack = none)
      (parsed : parseConfig lib call.configJSON = .ok cfg) :
      StartMove lib s call (((s.assigned call cfg).connected route).installed call ts, .ok ())

theorem start_move (lib : Libraries R) (s : Globals R) (call : StartCall R) :
    StartMove lib s call (s.startTunnelWithRelay lib call) := by
  unfold Globals.startTunnelWithRelay
  split
  · rename_i stack
    exact .running stack
  · rename_i free
    have idle : s.globalStack = none := Option.not_isSome_iff_eq_none.1 free
    split
    · rename_i parsed
      exact .rejected idle parsed
    · rename_i parsed
      split
      · exact .unconnected idle parsed
      · split
        · exact .unstacked idle parsed
        · exact .started idle parsed

structure Unchanged (s t : Globals R) : Prop where
  stack : t.globalStack = s.globalStack
  stats : t.globalStats = s.globalStats
  config : t.globalConfig = s.globalConfig
  callback : t.globalCB = s.globalCB
  relay : t.globalRelay = s.globalRelay
  client : t.globalClient = s.globalClient

structure Released (s : Globals R) : Prop where
  relay : s.globalRelay = []
  client : s.globalClient = none
  tailnet : s.globalTailnet = none
  path : s.globalTailnetPath = none

structure Blank (s : Globals R) : Prop where
  stats : s.globalStats = none
  config : s.globalConfig = none
  callback : s.globalCB = none

theorem close_relay_frame (s : Globals R) (relay : List (Hop R)) :
    ∃ closed events, s.closeRelay relay = { s with closedRelays := closed, events := events } := by
  induction relay generalizing s with
  | nil => exact ⟨s.closedRelays, s.events, rfl⟩
  | cons hop parents ih =>
    unfold Globals.closeRelay
    split
    · exact ⟨s.closedRelays, s.events, rfl⟩
    · obtain ⟨closed, events, same⟩ := ih ({ s with closedRelays := hop.ref :: s.closedRelays }.tell
        (hop.client.toList.map .clientClosed))
      exact ⟨closed, events, same⟩

omit [DecidableEq R] in
theorem tailscale_cases (lib : Libraries R) (s : Globals R) (call : TailscaleCall R) :
    (∃ events, (s.startTailscaleTunnel lib call).1 = s.tell events) ∨
      (s.startTailscaleTunnel lib call).1.globalStack = some call.newTailnetPath := by
  have same : ∃ events, s = s.tell events := ⟨[], by simp [Globals.tell]⟩
  unfold Globals.startTailscaleTunnel
  split
  · exact .inl same
  split
  · exact .inl same
  split
  · exact .inl same
  split
  · exact .inl same
  split
  · exact .inl same
  split
  · exact .inl same
  split
  · exact .inl ⟨_, rfl⟩
  · exact .inr rfl

theorem stop_cases (s : Globals R) :
    s.globalStack = none ∧ s.stopTunnel = s ∨
      s.stopTunnel.globalStack = none ∧ Released s.stopTunnel ∧ Blank s.stopTunnel := by
  unfold Globals.stopTunnel
  cases stack : s.globalStack with
  | none => exact .inl ⟨rfl, rfl⟩
  | some ts =>
    obtain ⟨closed, events, same⟩ := close_relay_frame s.dropClient s.dropClient.globalRelay
    right
    simp only [same]
    exact ⟨rfl, ⟨rfl, rfl, rfl, rfl⟩, ⟨rfl, rfl, rfl⟩⟩

inductive Outcome (lib : Libraries R) (s : Globals R) : Call R → Globals R → Prop where
  | aside {a : Call R} (closed : List R) (events : List (Event R)) :
      Outcome lib s a { s with closedRelays := closed, events := events }
  | running {a : Call R} {t : Globals R} {ts : R} (stack : t.globalStack = some ts) : Outcome lib s a t
  | stopped {t : Globals R} (released : Released t) (blank : Blank t) : Outcome lib s .stop t
  | failed {call : StartCall R} {cfg : Config} {e : Failure} (idle : s.globalStack = none)
      (parsed : parseConfig lib call.configJSON = .ok cfg) (failed : (s.startTunnelWithRelay lib call).2 = .error e)
      (releases : Released s → Released (s.startTunnelWithRelay lib call).1) :
      Outcome lib s (.start call) (s.startTunnelWithRelay lib call).1

theorem start_outcome (lib : Libraries R) (s : Globals R) (call : StartCall R) :
    Outcome lib s (.start call) (s.startTunnelWithRelay lib call).1 := by
  have move := start_move lib s call
  cases result : s.startTunnelWithRelay lib call with
  | mk t answer =>
    rw [result] at move
    cases move with
    | running => exact .aside s.closedRelays s.events
    | rejected => exact .aside s.closedRelays s.events
    | unconnected idle parsed =>
      rw [← result]
      refine .failed idle parsed (by rw [result]) fun released => ?_
      rw [result]
      exact ⟨released.relay, released.client, released.tailnet, released.path⟩
    | unstacked idle parsed =>
      rw [← result]
      refine .failed idle parsed (by rw [result]) fun released => ?_
      rw [result]
      exact ⟨released.relay, rfl, released.tailnet, released.path⟩
    | started => exact .running rfl

theorem step_outcome {a : Call R} (moved : step lib s a = some t) : Outcome lib s a t := by
  cases a with
  | start call =>
    cases moved
    exact start_outcome lib s call
  | startTailscale call =>
    cases moved
    rcases tailscale_cases lib s call with ⟨events, same⟩ | started
    · rw [same]
      exact .aside s.closedRelays (s.events ++ events)
    · exact .running started
  | stop =>
    cases moved
    rcases stop_cases s with ⟨_, same⟩ | ⟨_, released, blank⟩
    · rw [same]
      exact .aside s.closedRelays s.events
    · exact .stopped released blank
  | closeRelay relay =>
    cases moved
    obtain ⟨closed, events, same⟩ := close_relay_frame s relay
    rw [same]
    exact .aside closed events

theorem released_step {a : Call R} (released : s.globalStack = none → Released s) (moved : step lib s a = some t) :
    t.globalStack = none → Released t := by
  intro idle
  cases step_outcome moved with
  | aside =>
    obtain ⟨relay, client, tailnet, path⟩ := released idle
    exact ⟨relay, client, tailnet, path⟩
  | running stack => cases idle.symm.trans stack
  | stopped released => exact released
  | failed before _ _ releases => exact releases (released before)

def Accepted (lib : Libraries R) (s : Globals R) : Call R → Prop
  | .start call =>
    s.globalStack = none → ∀ cfg, parseConfig lib call.configJSON = .ok cfg →
      (s.startTunnelWithRelay lib call).2 = .ok ()
  | _ => True

theorem blank_step {a : Call R} (blank : s.globalStack = none → Blank s) (accepted : Accepted lib s a)
    (moved : step lib s a = some t) : t.globalStack = none → Blank t := by
  intro idle
  cases step_outcome moved with
  | aside =>
    obtain ⟨stats, config, callback⟩ := blank idle
    exact ⟨stats, config, callback⟩
  | running stack => cases idle.symm.trans stack
  | stopped _ blank => exact blank
  | failed before parsed failed => cases (accepted before _ parsed).symm.trans failed

/-- After any calls, a failed start leaves the stack, the relay and the client as they were.
    The other globals are as they were when the configuration is rejected, and then no tunnel
    is shown if that was so for every failed start before. -/
theorem failed_start_unchanged (lib : Libraries R) {calls : List (Call R)}
    (reached : run (step lib) initial calls = some s) (idle : s.globalStack = none) (call : StartCall R) {e : Failure}
    (failed : s.startTunnelWithRelay lib call = (t, .error e)) :
    (t.globalStack = s.globalStack ∧ t.globalRelay = s.globalRelay ∧ t.globalClient = s.globalClient) ∧
      ((∀ cfg, parseConfig lib call.configJSON ≠ .ok cfg) → Unchanged s t ∧
        (Along (step lib) (Accepted lib) initial calls → t.getEffectiveMTU = 0 ∧ t.getStatus = .noTunnel)) := by
  have released : s.globalStack = none → Released s :=
    run_invariant (fun _ => ⟨rfl, rfl, rfl, rfl⟩) (fun _ _ _ before moved => released_step before moved) reached
  have move := start_move lib s call
  rw [failed] at move
  cases move with
  | running stack => simp [idle] at stack
  | rejected _ parsed =>
    refine ⟨⟨rfl, rfl, rfl⟩, fun _ => ⟨⟨rfl, rfl, rfl, rfl, rfl, rfl⟩, fun along => ?_⟩⟩
    have blank : s.globalStack = none → Blank s :=
      run_induct (P := fun _ s => s.globalStack = none → Blank s) (fun _ => ⟨rfl, rfl, rfl⟩)
        (fun _ _ _ _ _ before accepted moved => blank_step before accepted moved) along reached
    simp [Globals.getEffectiveMTU, Globals.getStatus, (blank idle).config, (blank idle).stats]
  | unconnected _ parsed => exact ⟨⟨rfl, rfl, rfl⟩, fun rejected => absurd parsed (rejected _)⟩
  -- A client connected by this call has been closed; there was none before it.
  | unstacked _ parsed => exact ⟨⟨rfl, rfl, (released idle).client.symm⟩, fun rejected => absurd parsed (rejected _)⟩

def twoConfigs : Libraries Nat where
  unmarshal json :=
    if json = text "\x7b\"transportType\":\"ssh\",\"mtu\":1400\x7d" then
      .ok ⟨text "ssh", false, [], 0, [], 0, 1400, false⟩
    else if json = text "\x7b\"transportType\":\"direct\"\x7d" then
      .ok ⟨text "direct", false, [], 0, [], 0, 0, false⟩
    else .error (text "unexpected end of JSON input")
  maxDatagramSize _ := 1200
  toStatus _ _ _ := []
  tailscaleBuilt := false

def startWith (json : String) : StartCall Nat where
  configJSON := text json
  callback := some 1
  relay := []
  stats := 2
  connectTSSH _ _ := .error (text "timeout")
  newTunnelStack _ := .ok 3

def startAndStop : List (Call Nat) := [Call.start (startWith "\x7b\"transportType\":\"direct\"\x7d"), .stop]

/-- A tunnel is started and stopped, and the next configuration is cut short. -/
theorem cut_config_unchanged :
    ∃ s t, run (step twoConfigs) initial startAndStop = some s ∧ s.globalStack = none ∧
      s.startTunnelWithRelay twoConfigs (startWith "\x7b") =
        (t, .error (.parseConfig (text "unexpected end of JSON input"))) ∧
      Unchanged s t ∧ t.getEffectiveMTU = 0 ∧ t.getStatus = .noTunnel := by
  have along : Along (step twoConfigs) (Accepted twoConfigs) initial startAndStop :=
    ⟨fun _ _ _ => by decide +kernel, fun _ _ => ⟨trivial, fun _ _ => trivial⟩⟩
  have rejected : parseConfig twoConfigs (text "\x7b") =
      .error (.parseConfig (text "unexpected end of JSON input")) := rfl
  obtain ⟨s, reached⟩ : ∃ s, run (step twoConfigs) initial startAndStop = some s := ⟨_, rfl⟩
  obtain ⟨t, idle, failed⟩ : ∃ t, s.globalStack = none ∧ s.startTunnelWithRelay twoConfigs (startWith "\x7b") =
      (t, .error (.parseConfig (text "unexpected end of JSON input"))) := by
    cases reached
    exact ⟨_, rfl, rfl⟩
  have kept := failed_start_unchanged twoConfigs reached idle (startWith "\x7b") failed
  obtain ⟨unchanged, blank⟩ := kept.2 fun cfg parsed => nomatch rejected.symm.trans parsed
  exact ⟨s, t, reached, idle, failed, unchanged, blank along⟩

/-- The SSH transport without its proxy: the start fails, and from then on an MTU is shown
    though no tunnel has run, also after a stop. -/
theorem missing_proxy_shows_mtu :
    ∃ t, initial.startTunnelWithRelay twoConfigs (startWith "\x7b\"transportType\":\"ssh\",\"mtu\":1400\x7d") =
        (t, .error .socksMissing) ∧
      ¬ Unchanged initial t ∧ t.getEffectiveMTU = 1400 ∧ t.stopTunnel.getEffectiveMTU = 1400 ∧
      t.stopTunnel.getStatus = .report 2 false (text "ssh") := by
  refine ⟨_, rfl, fun unchanged => ?_, rfl, rfl, rfl⟩
  exact nomatch unchanged.stats

end Starts

end TunnelStart
