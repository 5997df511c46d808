import RootShell.FallibleState
import RootShell.JumpCycles

/-!
What a login through jump hosts leaves open when it fails. The closer of a proxy client
is registered by the login that goes through it, and only once that login has succeeded;
a host that is reached over its control socket does not go through the proxy at all.
-/
namespace JumpClosers
open ByteLines ByteText JumpChains JumpCycles FallibleState

inductive Operation where
  | resolve
  | config
  | dial
  | exec
  | handshake
  deriving DecidableEq

inductive Failure where
  | emptyHost (destination : Bytes)
  | failed (what : Operation) (destination : Bytes)
  | endless
  deriving DecidableEq

/-- Clients are numbered as they are logged in; `control` are those that go over a control
    socket and `onExit` those whose closers are registered. -/
structure World where
  asked : Nat
  clients : Nat
  control : List Nat
  onExit : List Nat
  deriving DecidableEq

abbrev Act (A : Type) := Prog World Failure A

section Logins
variable (env : Settings) (answers : Nat → Bool)

def reply : Act Bool := do
  let w ← get
  set { w with asked := w.asked + 1 }
  pure (answers w.asked)

def attempt (what : Operation) (destination : Bytes) : Act Unit := do
  if ← reply answers then pure () else throw (.failed what destination)

def addOnExitFunc (client : Nat) : Act Unit := modify fun w => { w with onExit := w.onExit ++ [client] }

def sshNewClient : Act Nat := do
  let w ← get
  set { w with clients := w.clients + 1 }
  pure w.clients

def getSshParam (args : SshArgs) (proxy : Bool) : Act SshParam :=
  if hostOf args.destination = [] then throw (.emptyHost args.destination)
  else do
    attempt answers .resolve args.destination
    pure (hopParam env args proxy)

def getOptionConfig (option configured : Bytes) : Bytes := if option ≠ [] then option else configured

def multiplexed (args : SshArgs) : Bool :=
  let ctrlPath := toLower env.tables
    (if args.controlPath ≠ [] then args.controlPath
      else getOptionConfig args.controlPathOption (env.controlPath args.destination))
  ctrlPath ≠ [] && ctrlPath ≠ text "none"

def unlessFailed (rest : Act (Option Nat)) : Act (Option Nat) := do
  if ← reply answers then rest else pure none

/-- The control master is started where it is asked for; whether it does start is not looked at. -/
def withMaster (args : SshArgs) (rest : Act (Option Nat)) : Act (Option Nat) :=
  let ctrlMaster := toLower env.tables
    (getOptionConfig args.controlMasterOption (env.controlMaster args.destination))
  if ctrlMaster = text "yes" ∨ ctrlMaster = text "ask" ∨ ctrlMaster = text "true" then do
    -- a socket that is already there is somebody else's
    if ← reply answers then pure none
    else do
      let _ ← reply answers
      rest
  else if ctrlMaster = text "auto" ∨ ctrlMaster = text "autoask" then do
    let _ ← reply answers
    rest
  else rest

def controlClient : Act (Option Nat) := do
  let client ← sshNewClient
  modify fun w => { w with control := w.control ++ [client] }
  pure (some client)

/-- getOpenSSH and expandTokens come before the socket is dialed. -/
def connectViaControl (param : SshParam) : Act (Option Nat) :=
  if multiplexed env param.args then
    unlessFailed answers (unlessFailed answers (withMaster env answers param.args
      (unlessFailed answers (unlessFailed answers controlClient))))
  else pure none

/-- ssh.NewClientConn closes its connection when it fails. -/
def connectViaProxyJump (param : SshParam) (via : Nat) : Act Nat := do
  attempt answers .dial param.args.destination
  attempt answers .handshake param.args.destination
  addOnExitFunc via
  sshNewClient

def connectViaProxyCommand (param : SshParam) : Act Nat := do
  attempt answers .exec param.args.destination
  attempt answers .handshake param.args.destination
  sshNewClient

def connectDirectly (param : SshParam) : Act Nat := do
  attempt answers .dial param.args.destination
  attempt answers .handshake param.args.destination
  sshNewClient

abbrev Hop := SshParam → Option Nat → Act Nat

def proxyLogins (login : Hop) (proxy : Option Nat) (spec : Bytes) : List Bytes → Act Nat
  | [] => do
    let param ← getSshParam env answers (jumpArgs spec) true
    login param proxy
  | next :: specs => do
    let param ← getSshParam env answers (jumpArgs spec) true
    let client ← login param proxy
    proxyLogins login (some client) next specs

def networkLogin (login : Hop) (param : SshParam) (proxy : Option Nat) : Act Nat := do
  attempt answers .config param.args.destination
  match proxy with
  | some via => connectViaProxyJump answers param via
  | none =>
    if param.command ≠ [] then connectViaProxyCommand answers param
    else
      match param.proxies with
      | [] => connectDirectly answers param
      | spec :: specs => do
        let via ← proxyLogins env answers login none spec specs
        connectViaProxyJump answers param via

def tcpLogin (login : Hop) (param : SshParam) (proxy : Option Nat) : Act Nat := do
  match ← connectViaControl env answers param with
  | some client => pure client
  | none => networkLogin env answers login param proxy

def sshLogin : Nat → Hop
  | 0, _, _ => throw .endless
  | depth + 1, param, proxy => tcpLogin env answers (sshLogin depth) param proxy

end Logins

variable {login : Hop} {rest : Act Nat}

section Closers
variable {env : Settings} {answers : Nat → Bool} {w m t : World} {proxy : Option Nat} {base : Nat}

/-- Of the clients since `base` each one but the last is registered, unless the one after it
    goes over a control socket; the last one is the proxy of the next login. -/
structure Chain (base : Nat) (proxy : Option Nat) (w : World) : Prop where
  low : base ≤ w.clients
  last : ∀ c, proxy = some c ↔ base ≤ c ∧ c + 1 = w.clients
  registered : ∀ c, base ≤ c → (c ∈ w.onExit ↔ c + 1 < w.clients ∧ c + 1 ∉ w.control)
  control : ∀ c ∈ w.control, c < w.clients

def Post (base : Nat) (result : Except Failure Nat) (t : World) : Prop :=
  match result with
  | .ok client => Chain base (some client) t
  | .error _ => ∃ last, Chain base last t

structure Untouched (w t : World) : Prop where
  clients : t.clients = w.clients
  control : t.control = w.control
  onExit : t.onExit = w.onExit

theorem Chain.untouched (chain : Chain base proxy w) (same : Untouched w t) : Chain base proxy t := by
  obtain ⟨asked, clients, control, onExit⟩ := t
  obtain ⟨rfl, rfl, rfl⟩ := same
  exact ⟨chain.low, chain.last, chain.registered, chain.control⟩

def Quiet {A : Type} (p : Act A) : Prop := ∀ w, Leaves p w fun _ => Untouched w

def Logs (proxy : Option Nat) (p : Act Nat) : Prop := ∀ base w, Chain base proxy w → Leaves p w (Post base)

theorem quiet_logs {A : Type} {p : Act A} {f : A → Act Nat} (quiet : Quiet p) (later : ∀ a, Logs proxy (f a)) :
    Logs proxy (p >>= f) := by
  intro base w chain
  refine leaves_bind (quiet w) (fun failure m _ same => ?_) fun a m _ same => ?_
  · exact ⟨proxy, chain.untouched same⟩
  · exact later a base m (chain.untouched same)

theorem logs_logs {p : Act Nat} {f : Nat → Act Nat} (first : Logs proxy p)
    (later : ∀ client, Logs (some client) (f client)) : Logs proxy (p >>= f) := by
  intro base w chain
  exact leaves_bind (first base w chain) (fun _ _ _ ended => ended) fun client m _ ended => later client base m ended

theorem quiet_bind {A B : Type} {p : Act A} {f : A → Act B} (first : Quiet p) (later : ∀ a, Quiet (f a)) :
    Quiet (p >>= f) := by
  intro w
  refine leaves_bind (first w) (fun _ _ _ same => same) fun a m _ same => ?_
  have next := later a m
  exact ⟨next.clients.trans same.clients, next.control.trans same.control, next.onExit.trans same.onExit⟩

theorem reply_from (w : World) :
    (reply answers).from w = (.ok (answers w.asked), { w with asked := w.asked + 1 }) := rfl

theorem attempt_from (what : Operation) (destination : Bytes) (w : World) :
    (attempt answers what destination).from w =
      (if answers w.asked then .ok () else .error (.failed what destination), { w with asked := w.asked + 1 }) := by
  unfold attempt
  rw [run_bind_ok (reply_from w)]
  split <;> rfl

theorem attempt_quiet (what : Operation) (destination : Bytes) : Quiet (attempt answers what destination) := by
  intro w
  rw [Leaves, attempt_from]
  exact ⟨rfl, rfl, rfl⟩

theorem param_quiet (args : SshArgs) (proxy : Bool) : Quiet (getSshParam env answers args proxy) := by
  unfold getSshParam
  split
  · exact fun w => ⟨rfl, rfl, rfl⟩
  · exact quiet_bind (attempt_quiet _ _) fun _ w => ⟨rfl, rfl, rfl⟩

theorem client_from (w : World) : sshNewClient.from w = (.ok w.clients, { w with clients := w.clients + 1 }) := rfl

theorem client_logs : Logs none sshNewClient := by
  rintro base w ⟨low, last, registered, control⟩
  have empty : base = w.clients := by
    by_contra other
    exact nomatch (last (w.clients - 1)).2 ⟨by omega, by omega⟩
  rw [Leaves, client_from]
  refine ⟨by dsimp only; omega, fun c => ?_, fun c since => ?_, fun c member => ?_⟩
  · simp only [Option.some.injEq]
    omega
  · rw [registered c since]
    dsimp only
    omega
  · have := control c member
    dsimp only
    omega

theorem register_logs (via : Nat) : Logs (some via) (addOnExitFunc via >>= fun _ => sshNewClient) := by
  rintro base w ⟨low, last, registered, control⟩
  obtain ⟨since, newest⟩ := (last via).1 rfl
  have fresh : via + 1 ∉ w.control := fun member => by
    have := control _ member
    omega
  have moved : (addOnExitFunc via >>= fun _ => sshNewClient).from w =
      (.ok w.clients, { w with clients := w.clients + 1, onExit := w.onExit ++ [via] }) := rfl
  rw [Leaves, moved]
  refine ⟨by dsimp only; omega, fun c => ?_, fun c since => ?_, fun c member => ?_⟩
  · simp only [Option.some.injEq]
    omega
  · dsimp only
    rw [List.mem_append, List.mem_singleton, registered c since]
    by_cases same : c = via
    · subst same
      simp [fresh]
      omega
    · simp only [same, or_false]
      refine and_congr_left fun _ => ?_
      omega
  · have := control c member
    dsimp only
    omega

theorem proxy_jump_logs (param : SshParam) (via : Nat) : Logs (some via) (connectViaProxyJump answers param via) :=
  quiet_logs (attempt_quiet _ _) fun _ => quiet_logs (attempt_quiet _ _) fun _ => register_logs via

theorem proxy_command_logs (param : SshParam) : Logs none (connectViaProxyCommand answers param) :=
  quiet_logs (attempt_quiet _ _) fun _ => quiet_logs (attempt_quiet _ _) fun _ => client_logs

theorem directly_logs (param : SshParam) : Logs none (connectDirectly answers param) :=
  quiet_logs (attempt_quiet _ _) fun _ => quiet_logs (attempt_quiet _ _) fun _ => client_logs

section Control
variable {A : Type} {rest : Act (Option Nat)}

structure Controls (p : Act (Option Nat)) (w : World) : Prop where
  client : ∀ client t, p.from w = (.ok (some client), t) → client = w.clients ∧ t.clients = w.clients + 1 ∧
    t.control = w.control ++ [w.clients] ∧ t.onExit = w.onExit
  none : ∀ t, p.from w = (.ok none, t) → Untouched w t
  runs : ∀ failure t, p.from w ≠ (.error failure, t)

theorem none_controls (w : World) : Controls (pure none) w :=
  ⟨fun _ _ => nofun, fun t same => by cases same; exact ⟨rfl, rfl, rfl⟩, fun _ _ => nofun⟩

theorem reply_controls {f : Bool → Act (Option Nat)} (later : ∀ b w, Controls (f b) w) (w : World) :
    Controls (reply answers >>= f) w := by
  have rest := later (answers w.asked) { w with asked := w.asked + 1 }
  have same : (reply answers >>= f).from w = (f (answers w.asked)).from { w with asked := w.asked + 1 } :=
    run_bind_ok (reply_from w)
  refine ⟨fun client t ended => rest.client client t (same ▸ ended), fun t ended => ?_,
    fun failure t ended => rest.runs failure t (same ▸ ended)⟩
  obtain ⟨clients, control, onExit⟩ := rest.none t (same ▸ ended)
  exact ⟨clients, control, onExit⟩

theorem unless_failed_controls (later : ∀ w, Controls rest w) (w : World) :
    Controls (unlessFailed answers rest) w := by
  refine reply_controls (fun b w => ?_) w
  cases b
  · exact none_controls w
  · exact later w

theorem with_master_controls (args : SshArgs) (later : ∀ w, Controls rest w) (w : World) :
    Controls (withMaster env answers args rest) w := by
  unfold withMaster
  dsimp only
  split
  · refine reply_controls (fun b w => ?_) w
    cases b
    · exact reply_controls (fun _ w => later w) w
    · exact none_controls w
  · split
    · exact reply_controls (fun _ w => later w) w
    · exact later w

theorem control_client_controls (w : World) : Controls controlClient w := by
  have moved : controlClient.from w =
      (.ok (some w.clients), { w with clients := w.clients + 1, control := w.control ++ [w.clients] }) := rfl
  refine ⟨fun client t ended => ?_, fun t ended => ?_, fun failure t ended => ?_⟩
  · cases moved.symm.trans ended
    exact ⟨rfl, rfl, rfl, rfl⟩
  · cases moved.symm.trans ended
  · cases moved.symm.trans ended

theorem connect_controls (env : Settings) (answers : Nat → Bool) (param : SshParam) (w : World) :
    Controls (connectViaControl env answers param) w := by
  unfold connectViaControl
  split
  · refine unless_failed_controls (unless_failed_controls (with_master_controls _ ?_)) w
    exact unless_failed_controls (unless_failed_controls control_client_controls)
  · exact none_controls w

theorem control_cases (env : Settings) (answers : Nat → Bool) (param : SshParam) (w : World) :
    (∃ t, (connectViaControl env answers param).from w = (.ok (some w.clients), t) ∧ t.clients = w.clients + 1 ∧
      t.control = w.control ++ [w.clients] ∧ t.onExit = w.onExit) ∨
    ∃ t, (connectViaControl env answers param).from w = (.ok none, t) ∧ Untouched w t := by
  have controls := connect_controls env answers param w
  rcases ended : (connectViaControl env answers param).from w with ⟨result, t⟩
  cases result with
  | error failure => exact absurd ended (controls.runs failure t)
  | ok found =>
    cases found with
    | none => exact Or.inr ⟨t, rfl, controls.none t ended⟩
    | some client =>
      obtain ⟨rfl, grown⟩ := controls.client client t ended
      exact Or.inl ⟨t, rfl, grown⟩

end Control

theorem Chain.control_client (chain : Chain base proxy w) (clients : t.clients = w.clients + 1)
    (control : t.control = w.control ++ [w.clients]) (onExit : t.onExit = w.onExit) :
    Chain base (some w.clients) t := by
  have low := chain.low
  refine ⟨by omega, fun c => ?_, fun c since => ?_, fun c member => ?_⟩
  · simp only [Option.some.injEq]
    omega
  · rw [onExit, chain.registered c since, clients, control, List.mem_append, List.mem_singleton, not_or]
    constructor
    · rintro ⟨inside, network⟩
      exact ⟨by omega, network, by omega⟩
    · rintro ⟨inside, network, other⟩
      exact ⟨by omega, network⟩
  · rw [control, List.mem_append, List.mem_singleton] at member
    rcases member with before | rfl
    · have := chain.control c before
      omega
    · omega

theorem control_logs (param : SshParam) (later : Logs proxy rest) :
    Logs proxy (connectViaControl env answers param >>= fun found => match found with
      | some client => pure client
      | none => rest) := by
  intro base w chain
  rcases control_cases env answers param w with ⟨t, ended, clients, control, onExit⟩ | ⟨t, ended, same⟩
  · rw [Leaves, run_bind_ok ended]
    exact chain.control_client clients control onExit
  · rw [Leaves, run_bind_ok ended]
    exact later base t (chain.untouched same)

theorem proxy_logins_log (logs : ∀ param proxy, Logs proxy (login param proxy)) (spec : Bytes)
    (specs : List Bytes) (proxy : Option Nat) : Logs proxy (proxyLogins env answers login proxy spec specs) := by
  induction specs generalizing spec proxy with
  | nil => exact quiet_logs (param_quiet _ _) fun param => logs param proxy
  | cons next specs ih =>
    refine quiet_logs (param_quiet _ _) fun param => ?_
    exact logs_logs (logs param proxy) fun client => ih next (some client)

theorem network_login_logs (logs : ∀ param proxy, Logs proxy (login param proxy)) (param : SshParam)
    (proxy : Option Nat) : Logs proxy (networkLogin env answers login param proxy) := by
  refine quiet_logs (attempt_quiet _ _) fun _ => ?_
  cases proxy with
  | some via => exact proxy_jump_logs param via
  | none =>
    dsimp only
    split
    · exact proxy_command_logs param
    · split
      · exact directly_logs param
      · exact logs_logs (proxy_logins_log logs _ _ none) fun via => proxy_jump_logs param via

theorem login_logs (env : Settings) (answers : Nat → Bool) (depth : Nat) (param : SshParam) (proxy : Option Nat) :
    Logs proxy (sshLogin env answers depth param proxy) := by
  induction depth generalizing param proxy with
  | zero => exact fun base w chain => ⟨proxy, chain⟩
  | succ depth ih => exact control_logs param (network_login_logs ih param proxy)

end Closers

section Endings
variable {env : Settings} {answers : Nat → Bool} {A B : Type} {P : Prop}

/-- No client is forgotten and, under a condition, the depth is enough. -/
def Runs (P : Prop) (p : Act A) : Prop :=
  ∀ w, Leaves p w fun result t => w.clients ≤ t.clients ∧ (P → result ≠ .error .endless)

theorem runs_bind {p : Act A} {f : A → Act B} (first : Runs P p)
    (later : ∀ w a m, p.from w = (.ok a, m) → Runs P (f a)) : Runs P (p >>= f) := by
  intro w
  refine leaves_bind (first w) (fun failure m _ here => ?_) fun a m ended here => ?_
  · exact ⟨here.1, fun yes endless => here.2 yes (by cases endless; rfl)⟩
  · have next := later w a m ended m
    exact ⟨here.1.trans next.1, next.2⟩

theorem attempt_runs (what : Operation) (destination : Bytes) : Runs P (attempt answers what destination) := by
  intro w
  rw [Leaves, attempt_from]
  refine ⟨Nat.le_refl _, fun _ => ?_⟩
  dsimp only
  split <;> simp

theorem connect_runs (answers : Nat → Bool) (param : SshParam) :
    Runs P (connectDirectly answers param) ∧ Runs P (connectViaProxyCommand answers param) ∧
      ∀ via, Runs P (connectViaProxyJump answers param via) := by
  have client : Runs P sshNewClient := fun w => ⟨Nat.le_succ _, nofun⟩
  have shaken (p : Act Nat) (rest : Runs P p) :
      Runs P (attempt answers .handshake param.args.destination >>= fun _ => p) :=
    runs_bind (attempt_runs _ _) fun _ _ _ _ => rest
  refine ⟨?_, ?_, fun via => ?_⟩
  · exact runs_bind (attempt_runs _ _) fun _ _ _ _ => shaken _ client
  · exact runs_bind (attempt_runs _ _) fun _ _ _ _ => shaken _ client
  · exact runs_bind (attempt_runs _ _) fun _ _ _ _ => shaken _ fun w => ⟨Nat.le_succ _, nofun⟩

theorem param_runs (args : SshArgs) (proxy : Bool) : Runs P (getSshParam env answers args proxy) := by
  unfold getSshParam
  split
  · exact fun w => ⟨Nat.le_refl _, nofun⟩
  · exact runs_bind (attempt_runs _ _) fun _ _ _ _ w => ⟨Nat.le_refl _, nofun⟩

theorem param_given {args : SshArgs} {proxy : Bool} {w m : World} {found : SshParam}
    (given : (getSshParam env answers args proxy).from w = (.ok found, m)) :
    hostOf args.destination ≠ [] ∧ found = hopParam env args proxy := by
  unfold getSshParam at given
  split at given
  · cases given
  · rename_i named
    obtain ⟨_, _, _, rest⟩ := bind_ok given
    exact ⟨named, by cases rest; rfl⟩

theorem proxy_logins_run (behind : ∀ param via, Runs P (login param (some via))) (spec : Bytes) (specs : List Bytes)
    (proxy : Option Nat) (first : hostOf spec ≠ [] → Runs P (login (hopParam env (jumpArgs spec) true) proxy)) :
    Runs P (proxyLogins env answers login proxy spec specs) := by
  induction specs generalizing spec proxy with
  | nil =>
    refine runs_bind (param_runs _ _) fun w found m given => ?_
    obtain ⟨named, rfl⟩ := param_given given
    exact first named
  | cons next specs ih =>
    refine runs_bind (param_runs _ _) fun w found m given => ?_
    obtain ⟨named, rfl⟩ := param_given given
    exact runs_bind (first named) fun _ client _ _ => ih next (some client) fun _ => behind _ client

theorem control_runs (param : SshParam) (later : Runs P rest) :
    Runs P (connectViaControl env answers param >>= fun found => match found with
      | some client => pure client
      | none => rest) := by
  intro w
  rcases control_cases env answers param w with ⟨t, ended, clients, _⟩ | ⟨t, ended, same⟩
  · rw [Leaves, run_bind_ok ended]
    exact ⟨(Nat.le_succ _).trans clients.ge, fun _ failed => by cases failed⟩
  · rw [Leaves, run_bind_ok ended]
    exact ⟨same.clients.ge.trans (later t).1, (later t).2⟩

theorem tcp_login_runs (behind : ∀ param via, Runs P (login param (some via))) {param : SshParam}
    (first : ∀ spec specs, param.proxies = spec :: specs → hostOf spec ≠ [] →
      Runs P (login (hopParam env (jumpArgs spec) true) none)) : Runs P (tcpLogin env answers login param none) := by
  obtain ⟨directly, command, jump⟩ := connect_runs (P := P) answers param
  refine control_runs param (runs_bind (attempt_runs _ _) fun _ _ _ _ => ?_)
  dsimp only
  split
  · exact command
  · split
    · exact directly
    · rename_i spec specs jumps
      exact runs_bind (proxy_logins_run behind spec specs none (first spec specs jumps)) fun _ via _ _ => jump via

theorem login_behind_runs (depth : Nat) (param : SshParam) (via : Nat) :
    Runs P (sshLogin env answers (depth + 1) param (some via)) :=
  control_runs param (runs_bind (attempt_runs _ _) fun _ _ _ _ => (connect_runs answers param).2.2 via)

theorem login_grows (env : Settings) (answers : Nat → Bool) (depth : Nat) (param : SshParam) (proxy : Option Nat) :
    Runs False (sshLogin env answers depth param proxy) := by
  induction depth generalizing param proxy with
  | zero => exact fun w => ⟨Nat.le_refl _, False.elim⟩
  | succ depth ih =>
    cases proxy with
    | some via => exact login_behind_runs depth param via
    | none => exact tcp_login_runs (fun param via => ih param (some via)) fun _ _ _ _ => ih _ none

theorem login_reaches {specs : List Bytes} (halts : Halts env specs) :
    ∃ depth, ∀ more answers param, depth ≤ more → param.proxies = specs →
      Runs True (sshLogin env answers (more + 2) param none) := by
  induction halts with
  | direct =>
    refine ⟨0, fun more answers param _ jumps => tcp_login_runs (login_behind_runs more) fun _ _ listed => ?_⟩
    cases jumps.symm.trans listed
  | nameless empty =>
    refine ⟨0, fun more answers param _ jumps => ?_⟩
    refine tcp_login_runs (login_behind_runs more) fun _ _ listed named => ?_
    cases jumps.symm.trans listed
    exact absurd empty named
  | through next ih =>
    obtain ⟨depth, enough⟩ := ih
    refine ⟨depth + 1, fun more answers param deep jumps => ?_⟩
    obtain ⟨more, rfl⟩ := Nat.exists_eq_add_one.2 (Nat.zero_lt_of_lt deep)
    refine tcp_login_runs (login_behind_runs (more + 1)) fun _ _ listed _ => ?_
    cases jumps.symm.trans listed
    exact enough more answers _ (Nat.le_of_succ_le_succ deep) rfl

end Endings

section FirstHosts
variable {env : Settings} {answers : Nat → Bool}

/-- The login of the first host that is to be logged in: the destination itself if it needs no
    jump host, or else the first host of the way to its first jump host. -/
def firstLogin (env : Settings) (answers : Nat → Bool) : Nat → SshParam → Act Nat
  | 0, _ => throw .endless
  | depth + 1, param => do
    match ← connectViaControl env answers param with
    | some client => pure client
    | none => do
      attempt answers .config param.args.destination
      if param.command ≠ [] then connectViaProxyCommand answers param
      else
        match param.proxies with
        | [] => connectDirectly answers param
        | spec :: _ => do
          let first ← getSshParam env answers (jumpArgs spec) true
          firstLogin env answers depth first

structure Begins (first p : Act Nat) : Prop where
  fails : ∀ w failure m, first.from w = (.error failure, m) → p.from w = (.error failure, m) ∧ m.clients = w.clients
  logs : ∀ w client m, first.from w = (.ok client, m) → w.clients < m.clients ∧ m.clients ≤ (p.from w).2.clients

theorem begins_quiet {A : Type} {p : Act A} {f g : A → Act Nat} (quiet : Quiet p) (later : ∀ a, Begins (f a) (g a)) :
    Begins (p >>= f) (p >>= g) := by
  refine ⟨fun w failure t ended => ?_, fun w client t ended => ?_⟩
  all_goals
    have here := quiet w
    rcases first : p.from w with ⟨result, m⟩
    rw [Leaves, first] at here
    cases result
  · rw [run_bind_error first] at ended ⊢
    cases ended
    exact ⟨rfl, here.clients⟩
  · rw [run_bind_ok first] at ended ⊢
    obtain ⟨same, count⟩ := (later _).fails m failure t ended
    exact ⟨same, count.trans here.clients⟩
  · rw [run_bind_error first] at ended
    cases ended
  · rw [run_bind_ok first] at ended ⊢
    have more := (later _).logs m client t ended
    rwa [here.clients] at more

theorem begins_then {first p : Act Nat} {f : Nat → Act Nat} (begins : Begins first p) (later : ∀ c, Runs False (f c)) :
    Begins first (p >>= f) := by
  refine ⟨fun w failure m ended => ?_, fun w client m ended => ?_⟩
  · obtain ⟨same, count⟩ := begins.fails w failure m ended
    exact ⟨run_bind_error same, count⟩
  · obtain ⟨more, grown⟩ := begins.logs w client m ended
    refine ⟨more, bind_ends (fun _ (t : World) => m.clients ≤ t.clients) (fun failure t same => ?_)
      fun next t same => ?_⟩
    · rwa [same] at grown
    · rw [same] at grown
      exact grown.trans (later next t).1

theorem client_begins : Begins sshNewClient sshNewClient :=
  ⟨fun _ _ _ => nofun, fun w client m ended => by cases ended; exact ⟨Nat.lt_succ_self _, Nat.le_refl _⟩⟩

theorem connect_begins (param : SshParam) :
    Begins (connectDirectly answers param) (connectDirectly answers param) ∧
      Begins (connectViaProxyCommand answers param) (connectViaProxyCommand answers param) := by
  have shaken : Begins (attempt answers .handshake param.args.destination >>= fun _ => sshNewClient)
      (attempt answers .handshake param.args.destination >>= fun _ => sshNewClient) :=
    begins_quiet (attempt_quiet _ _) fun _ => client_begins
  exact ⟨begins_quiet (attempt_quiet _ _) fun _ => shaken, begins_quiet (attempt_quiet _ _) fun _ => shaken⟩

theorem control_begins {first : Act Nat} (param : SshParam) (later : Begins first rest) :
    Begins (connectViaControl env answers param >>= fun found => match found with
        | some client => pure client
        | none => first)
      (connectViaControl env answers param >>= fun found => match found with
        | some client => pure client
        | none => rest) := by
  refine ⟨fun w failure t ended => ?_, fun w client t ended => ?_⟩
  all_goals
    rcases control_cases env answers param w with ⟨m, found, clients, _⟩ | ⟨m, found, same⟩
    all_goals rw [run_bind_ok found] at ended ⊢
  · cases ended
  · obtain ⟨alike, count⟩ := later.fails m failure t ended
    exact ⟨alike, count.trans same.clients⟩
  · cases ended
    exact ⟨clients.ge, Nat.le_refl _⟩
  · have more := later.logs m client t ended
    rwa [same.clients] at more

theorem login_begins (env : Settings) (answers : Nat → Bool) (depth : Nat) (param : SshParam) :
    Begins (firstLogin env answers depth param) (sshLogin env answers depth param none) := by
  induction depth generalizing param with
  | zero => exact ⟨fun w failure m ended => by cases ended; exact ⟨rfl, rfl⟩, fun w client m => nofun⟩
  | succ depth ih =>
    refine control_begins param (begins_quiet (attempt_quiet _ _) fun _ => ?_)
    dsimp only
    split
    · exact (connect_begins param).2
    · split
      · exact (connect_begins param).1
      · rename_i spec specs jumps
        refine begins_then ?_ (connect_runs answers param).2.2
        cases specs with
        | nil => exact begins_quiet (param_quiet _ _) fun found => ih found
        | cons next specs =>
          refine begins_quiet (param_quiet _ _) fun found => begins_then (ih found) fun client => ?_
          exact proxy_logins_run (fun param via => login_grows env answers depth param (some via)) next specs
            (some client) fun _ => login_grows env answers depth _ (some client)

end FirstHosts

section Leaks
variable {env : Settings}

structure Known (w : World) : Prop where
  onExit : ∀ c ∈ w.onExit, c < w.clients
  control : ∀ c ∈ w.control, c < w.clients

theorem Known.chain {w : World} (known : Known w) : Chain w.clients none w where
  low := Nat.le_refl _
  last c := by
    simp only [reduceCtorEq, false_iff]
    omega
  registered c since := by
    have := known.onExit c
    constructor
    · intro listed
      exact absurd (this listed) (Nat.not_lt.2 since)
    · omega
  control := known.control

def Registered (w t : World) : Prop := ∀ c, w.clients ≤ c → c < t.clients → c ∈ t.onExit

theorem Chain.registered_iff {w t : World} {last : Option Nat} (chain : Chain w.clients last t) :
    Registered w t ↔ t.clients = w.clients := by
  constructor
  · intro all
    by_contra more
    have low := chain.low
    have listed := all (t.clients - 1) (by omega) (by omega)
    have := ((chain.registered _ (by omega)).1 listed).1
    omega
  · intro none c since here
    omega

/-- When a login through an acyclic jump chain fails, the clients logged in are registered except
    the last one and each one before a client that goes over a control socket; so all are
    registered exactly if already the first host could not be logged in. -/
theorem failed_login_leaves_last (env : Settings) (param : SshParam) (acyclic : Halts env param.proxies) :
    ∃ depth, ∀ more answers w failure t, depth ≤ more → Known w →
      (sshLogin env answers more param none).from w = (.error failure, t) →
        failure ≠ .endless ∧
        (∀ c, w.clients ≤ c → c < t.clients → (c ∈ t.onExit ↔ c + 1 ≠ t.clients ∧ c + 1 ∉ t.control)) ∧
        (Registered w t ↔ ∃ early m, (firstLogin env answers more param).from w = (.error early, m)) := by
  obtain ⟨depth, enough⟩ := login_reaches acyclic
  refine ⟨depth + 2, fun more answers w failure t deep known failed => ?_⟩
  obtain ⟨last, chain⟩ : ∃ last, Chain w.clients last t := by
    have left := login_logs env answers more param none w.clients w known.chain
    rwa [Leaves, failed] at left
  refine ⟨?_, fun c since here => ?_, ?_⟩
  · obtain ⟨more, rfl⟩ := Nat.exists_eq_add_of_le' (Nat.le_of_add_left_le deep)
    have reached := (enough more answers param (Nat.le_of_add_le_add_right deep) rfl w).2 trivial
    rw [failed] at reached
    exact fun endless => reached (by rw [endless])
  · rw [chain.registered c since]
    refine and_congr_left fun _ => ?_
    omega
  · have begins := login_begins env answers more param
    rw [chain.registered_iff]
    rcases first : (firstLogin env answers more param).from w with ⟨result, m⟩
    cases result with
    | error early =>
      obtain ⟨same, count⟩ := begins.fails w early m first
      cases failed.symm.trans same
      simp [count]
    | ok client =>
      obtain ⟨one, grown⟩ := begins.logs w client m first
      rw [failed] at grown
      have some_ : t.clients ≠ w.clients := by
        dsimp only at grown
        omega
      simp [some_]

def twoJumps (controlled : List Bytes) : Settings where
  tables := latinTables
  udpMode _ := []
  proxyJump name := if name = text "target" then text "jump1,jump2" else []
  proxyCommand _ := []
  canonicalName _ host := host
  expandTokens _ spec := spec
  controlPath name := if name ∈ controlled then text "/tmp/ctl" else []

def outset : World := ⟨0, 0, [], []⟩

theorem outset_known : Known outset := by
  constructor <;> simp [outset]

theorem first_host_fails (more : Nat) :
    (firstLogin (twoJumps []) (fun k => k != 3) (more + 2) (hopParam (twoJumps []) toTarget false)).from outset =
      (.error (.failed .dial (text "jump1")), ⟨4, 0, [], []⟩) := by
  rfl

theorem two_jumps_failure :
    ∃ depth, ∀ more failure t, depth ≤ more →
      (sshLogin (twoJumps []) (fun k => k != 3) more (hopParam (twoJumps []) toTarget false) none).from outset =
        (.error failure, t) → Registered outset t := by
  have jumps : (hopParam (twoJumps []) toTarget false).proxies = [text "jump1", text "jump2"] := by decide +kernel
  have direct : (hopParam (twoJumps []) (jumpArgs (text "jump1")) true).proxies = [] := by decide +kernel
  obtain ⟨depth, all⟩ := failed_login_leaves_last (twoJumps []) (hopParam (twoJumps []) toTarget false)
    (jumps ▸ .through (direct ▸ .direct))
  refine ⟨depth + 2, fun more failure t deep failed => ?_⟩
  obtain ⟨more, rfl⟩ := Nat.exists_eq_add_of_le' (Nat.le_of_add_left_le deep)
  exact (all _ _ _ failure t (Nat.le_of_add_right_le deep) outset_known failed).2.2.2
    ⟨_, _, first_host_fails more⟩

/-- The second jump host cannot be dialed: the client of the first one stays open. Nor is it registered when the
    second one is reached over its control socket and the destination cannot be dialed. -/
theorem first_jump_left_open :
    (sshLogin (twoJumps []) (fun k => k != 7) 3 (hopParam (twoJumps []) toTarget false) none).from outset =
        (.error (.failed .dial (text "jump2")), ⟨8, 1, [], []⟩) ∧
      (sshLogin (twoJumps [text "jump2"]) (fun k => k != 10) 3
          (hopParam (twoJumps [text "jump2"]) toTarget false) none).from outset =
        (.error (.failed .dial (text "target")), ⟨11, 2, [1], []⟩) := by
  decide +kernel

end Leaks

section Agreement
variable {env : Settings} {A B C D : Type} {y : Except JumpChains.Failure B} {g : B → Except JumpChains.Failure D}

inductive Agrees : Except Failure A → Except JumpChains.Failure B → Prop where
  | ok (a : A) (b : B) : Agrees (.ok a) (.ok b)
  | emptyHost (destination : Bytes) : Agrees (.error (.emptyHost destination)) (.error (.emptyHost destination))
  | endless : Agrees (.error .endless) (.error .endless)

theorem agrees_bind {p : Act A} {f : A → Act C} {w : World} (first : Agrees (p.from w).1 y)
    (later : ∀ a m b, p.from w = (.ok a, m) → y = .ok b → Agrees ((f a).from m).1 (g b)) :
    Agrees ((p >>= f).from w).1 (y >>= g) := by
  rcases ended : p.from w with ⟨result, m⟩
  rw [ended] at first
  cases first with
  | ok a b =>
    rw [run_bind_ok ended]
    exact later a m b ended rfl
  | emptyHost destination =>
    rw [run_bind_error ended]
    exact .emptyHost destination
  | endless =>
    rw [run_bind_error ended]
    exact .endless

structure TcpOnly (env : Settings) : Prop where
  text : ∀ spec, getUdpMode env (jumpArgs spec) = .no
  host : ∀ spec, (hopParam env (jumpArgs spec) true).udpMode = .no
  network : ∀ spec, multiplexed env (hopParam env (jumpArgs spec) true).args = false

theorem tcp_modes (tcp : TcpOnly env) (specs : List Bytes) :
    udpModes env .no specs = (.no, specs.map fun _ => .no) := by
  induction specs with
  | nil => rfl
  | cons spec specs ih => simp [udpModes, ih, tcp.text, raised, carried]

theorem agrees_map {x : Except Failure A} (agrees : Agrees x y)
    (passes : ∀ b, y = .ok b → ∃ d, g b = .ok d) : Agrees x (y >>= g) := by
  cases agrees with
  | ok a b =>
    obtain ⟨d, passed⟩ := passes b rfl
    change Agrees (.ok a) (g b)
    rw [passed]
    exact .ok a d
  | emptyHost destination => exact .emptyHost destination
  | endless => exact .endless

def always (_ : Nat) : Bool := true

theorem attempt_always (what : Operation) (destination : Bytes) (p : Act A) (w : World) :
    (attempt always what destination >>= fun _ => p).from w = p.from { w with asked := w.asked + 1 } :=
  run_bind_ok (attempt_from what destination w)

theorem connect_always (param : SshParam) (w : World) :
    (∃ c, ((connectDirectly always param).from w).1 = .ok c) ∧
      (∃ c, ((connectViaProxyCommand always param).from w).1 = .ok c) ∧
      ∀ via, ∃ c, ((connectViaProxyJump always param via).from w).1 = .ok c := by
  unfold connectDirectly connectViaProxyCommand connectViaProxyJump
  simp only [attempt_always]
  exact ⟨⟨_, rfl⟩, ⟨_, rfl⟩, fun via => ⟨_, rfl⟩⟩

theorem param_agrees (args : SshArgs) (proxy : Bool) (w : World) :
    Agrees ((getSshParam env always args proxy).from w).1 (JumpChains.getSshParam env args proxy) := by
  unfold getSshParam JumpChains.getSshParam
  split
  · exact .emptyHost _
  · rw [attempt_always]
    exact .ok _ _

def SameLogin (env : Settings) (login : Hop) (other : Login) : Prop :=
  ∀ param proxy via w, param.udpMode = .no → multiplexed env param.args = false → proxy.isSome = via.isSome →
    Agrees ((login param proxy).from w).1 (other param via .no)

theorem proxy_logins_agree (tcp : TcpOnly env) {other : Login} (same : SameLogin env login other) (spec : Bytes)
    (specs : List Bytes) (proxy : Option Nat) (via : Option ProxyJump) (w : World) (alike : proxy.isSome = via.isSome) :
    Agrees ((proxyLogins env always login proxy spec specs).from w).1
      (JumpChains.proxyLogins env other via ((spec :: specs).zip ((spec :: specs).map fun _ => .no))) := by
  induction specs generalizing spec proxy via w with
  | nil =>
    refine agrees_bind (param_agrees _ _ w) fun found m param given chosen => ?_
    obtain ⟨_, rfl⟩ := param_given given
    obtain ⟨_, rfl⟩ := param_found chosen
    exact agrees_map (same _ proxy via m (tcp.host spec) (tcp.network spec) alike) fun client _ => ⟨_, rfl⟩
  | cons next specs ih =>
    refine agrees_bind (param_agrees _ _ w) fun found m param given chosen => ?_
    obtain ⟨_, rfl⟩ := param_given given
    obtain ⟨_, rfl⟩ := param_found chosen
    exact agrees_bind (same _ proxy via m (tcp.host spec) (tcp.network spec) alike) fun client t other _ _ =>
      ih next (some client) (some ⟨other, spec⟩) t rfl

theorem tcp_login_agrees (tcp : TcpOnly env) {other : Login} (same : SameLogin env login other)
    (param : SshParam) (proxy : Option Nat) (via : Option ProxyJump) (w : World)
    (network : multiplexed env param.args = false) (alike : proxy.isSome = via.isSome) :
    Agrees ((tcpLogin env always login param proxy).from w).1 (JumpChains.tcpLogin env other param via .no) := by
  have unused : (connectViaControl env always param).from w = (.ok none, w) := by
    rw [connectViaControl, if_neg (by simp [network])]
    rfl
  rw [tcpLogin, run_bind_ok unused]
  dsimp only
  unfold networkLogin JumpChains.tcpLogin
  rw [attempt_always]
  obtain ⟨⟨direct, directly⟩, ⟨ran, command⟩, jump⟩ := connect_always param { w with asked := w.asked + 1 }
  cases proxy with
  | some client =>
    cases via with
    | none => cases alike
    | some via =>
      obtain ⟨c, jumped⟩ := jump client
      dsimp only
      rw [jumped]
      exact .ok _ _
  | none =>
    cases via with
    | some via => cases alike
    | none =>
      dsimp only
      split
      · rw [command]
        exact .ok _ _
      · cases jumps : param.proxies with
        | nil =>
          rw [if_pos rfl]
          dsimp only
          rw [directly]
          exact .ok _ _
        | cons spec specs =>
          rw [if_neg (List.cons_ne_nil _ _), tcp_modes tcp]
          refine agrees_bind (proxy_logins_agree tcp same spec specs none none _ rfl) fun client m last _ _ => ?_
          obtain ⟨c, jumped⟩ := (connect_always param m).2.2 client
          rw [jumped]
          exact .ok _ _

theorem tcp_login_mode {login : Login} {param : SshParam} {via : Option ProxyJump} {mode : UdpMode}
    {out : SshParam × Client} (given : JumpChains.tcpLogin env login param via mode = .ok out) :
    out.1.udpMode = param.udpMode := by
  unfold JumpChains.tcpLogin at given
  split at given
  · cases given
    rfl
  · split at given
    · cases given
      rfl
    · split at given
      · cases given
        rfl
      · dsimp only at given
        generalize JumpChains.proxyLogins env login none _ = logins at given
        cases logins with
        | error failure => cases given
        | ok last =>
          cases given
          rfl

/-- Where every operation succeeds, the logins go as those that decide on the transports. -/
theorem login_agrees (tcp : TcpOnly env) (depth : Nat) :
    SameLogin env (sshLogin env always depth) (JumpChains.sshLogin env depth) := by
  induction depth with
  | zero => exact fun param proxy via w _ _ _ => .endless
  | succ depth ih =>
    intro param proxy via w mode network alike
    have same : { param with udpMode := raised .no param.udpMode } = param := by
      rw [mode, raised, if_neg (by simp), ← mode]
    rw [JumpChains.sshLogin]
    dsimp only
    rw [same, mode]
    refine agrees_map (tcp_login_agrees tcp ih param proxy via w network alike) fun out given => ?_
    exact ⟨out.2, if_pos ((tcp_login_mode given).trans mode)⟩

end Agreement

end JumpClosers
