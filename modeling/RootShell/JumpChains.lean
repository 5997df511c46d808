import RootShell.ByteText

/-!
Logins along a chain of jump hosts. The transport of a hop is decided before its login
from the text of its jump spec, and at its login from the host name in that text.
-/
namespace JumpChains
open ByteLines ByteText

inductive UdpMode where
  | no
  | yes
  | kcp
  | quic
  deriving DecidableEq

structure SshArgs where
  destination : Bytes
  udpModeOption : Bytes := []
  kcp : Bool := false
  udp : Bool := false
  attach : Bool := false
  proxyJump : Bytes := []
  proxyJumpOption : Bytes := []
  proxyCommandOption : Bytes := []
  controlPath : Bytes := []
  controlPathOption : Bytes := []
  controlMasterOption : Bytes := []

/-- What the program looks up, each by the alias it is given. Tokens are expanded for the
    arguments of the hop that has the jump list. -/
structure Settings where
  tables : CaseTables
  udpMode : Bytes → Bytes
  proxyJump : Bytes → Bytes
  proxyCommand : Bytes → Bytes
  canonicalName : Bool → Bytes → Bytes
  expandTokens : SshArgs → Bytes → Bytes
  controlPath : Bytes → Bytes := fun _ => []
  controlMaster : Bytes → Bytes := fun _ => []

inductive Client where
  | tcp
  | udp
  deriving DecidableEq

structure ProxyJump where
  client : Client
  name : Bytes

structure SshParam where
  args : SshArgs
  proxies : List Bytes
  command : Bytes
  proxy : Option ProxyJump
  udpMode : UdpMode

inductive Failure where
  | emptyHost (destination : Bytes)
  | notUdpClient (client : Client) (destination : Bytes)
  | endless
  deriving DecidableEq

def cut (sep s : Bytes) : Option (Bytes × Bytes) :=
  (s.tails.find? fun t => sep.isPrefixOf t).map fun t => (s.take (s.length - t.length), t.drop sep.length)

def parseDestination (dest : Bytes) : Bytes × Bytes × Bytes :=
  let (user, dest) :=
    match cut (text "@") dest with
    | some (front, back) => (trimSpace front, back)
    | none => ([], dest)
  let (port, dest) :=
    match dest, cut (text "]:") dest with
    | 91 :: _, some (_ :: address, back) => (trimSpace back, address)
    | _, _ =>
      match dest.splitOn 58 with
      | [front, back] => (trimSpace back, front)
      | _ => ([], dest)
  (user, trimSpace dest, port)

variable (env : Settings) {A B : Type} {post : A → Prop} {smooth : Prop} {x : Except Failure A} {param : SshParam}
  {depth : Nat} {levels : List (List Bytes)}

def readMode (s : Bytes) : Option UdpMode :=
  let s := toLower env.tables s
  if s = text "yes" then some .yes
  else if s = text "kcp" then some .kcp
  else if s = text "quic" then some .quic
  else none

/-- An unknown value is passed over with a warning. -/
def getUdpMode (args : SshArgs) : UdpMode :=
  if toLower env.tables args.udpModeOption = text "no" then .no
  else match readMode env args.udpModeOption with
  | some mode => mode
  | none =>
    if args.kcp then .kcp
    else match readMode env (env.udpMode args.destination) with
    | some mode => mode
    | none => if args.udp || args.attach then .yes else .no

def getProxyParam (args : SshArgs) : List Bytes × Bytes :=
  let isNone (s : Bytes) : Bool := toLower env.tables s = text "none"
  let jump := if args.proxyJump = [] then args.proxyJumpOption else args.proxyJump
  let command := args.proxyCommandOption
  let configured := env.proxyJump args.destination
  let fallback := env.proxyCommand args.destination
  if isNone jump then ([], [])
  else if jump ≠ [] then (jump.splitOn 44, [])
  else if isNone command then ([], [])
  else if command ≠ [] then ([], command)
  else if configured ≠ [] ∧ isNone configured = false then (configured.splitOn 44, [])
  else if fallback ≠ [] ∧ isNone fallback = false then ([], fallback)
  else ([], [])

def hostOf (dest : Bytes) : Bytes := (parseDestination dest).2.1

/-- The host name alone is looked up for a hop, not its spec. -/
def hopParam (args : SshArgs) (proxy : Bool) : SshParam :=
  let named := { args with destination := env.canonicalName proxy (hostOf args.destination) }
  let (proxies, command) := getProxyParam env named
  { args := named
    proxies := proxies.map fun p => env.expandTokens args (trimSpace p)
    command := command
    proxy := none
    udpMode := getUdpMode env named }

def getSshParam (args : SshArgs) (proxy : Bool) : Except Failure SshParam :=
  if hostOf args.destination = [] then .error (.emptyHost args.destination) else .ok (hopParam env args proxy)

def jumpArgs (spec : Bytes) : SshArgs := { destination := spec }

def raised (required mode : UdpMode) : UdpMode := if required ≠ .no ∧ mode = .no then required else mode

def carried (required mode : UdpMode) : UdpMode := if required = .no ∧ mode ≠ .no then mode else required

/-- The modes to log in with, found from the last jump host backwards, and the mode that
    the first one leaves required. -/
def udpModes (requireUDP : UdpMode) : List Bytes → UdpMode × List UdpMode
  | [] => (requireUDP, [])
  | spec :: specs =>
    let (required, modes) := udpModes requireUDP specs
    let mode := raised required (getUdpMode env (jumpArgs spec))
    (carried required mode, mode :: modes)

abbrev Login := SshParam → Option ProxyJump → UdpMode → Except Failure Client

def proxyLogins (login : Login) : Option ProxyJump → List (Bytes × UdpMode) → Except Failure (Option ProxyJump)
  | proxy, [] => .ok proxy
  | proxy, (spec, mode) :: rest => do
    let param ← getSshParam env (jumpArgs spec) true
    let client ← login param proxy mode
    proxyLogins login (some ⟨client, spec⟩) rest

/-- The jump list of a hop that is itself reached through a proxy is not looked at. -/
def tcpLogin (login : Login) (param : SshParam) (proxy : Option ProxyJump) (requireUDP : UdpMode) :
    Except Failure (SshParam × Client) :=
  match proxy with
  | some via => .ok ({ param with proxy := some via }, .tcp)
  | none =>
    if param.command ≠ [] then .ok (param, .tcp)
    else if param.proxies = [] then .ok (param, .tcp)
    else do
      let (_, modes) := udpModes env requireUDP param.proxies
      let last ← proxyLogins env login none (param.proxies.zip modes)
      .ok ({ param with proxy := last }, .tcp)

def udpLogin (param : SshParam) : Except Failure Client :=
  match param.proxy with
  | none => .ok .udp
  | some via =>
    match via.client with
    | .udp => .ok .udp
    | .tcp => .error (.notUdpClient .tcp param.args.destination)

def sshLogin : Nat → Login
  | 0, _, _, _ => .error .endless
  | depth + 1, param, proxy, requireUDP => do
    let mode := raised requireUDP param.udpMode
    let (param, client) ←
      tcpLogin env (sshLogin depth) { param with udpMode := mode } proxy (carried requireUDP mode)
    if param.udpMode = .no then .ok client else udpLogin param

def sshConnect (depth : Nat) (args : SshArgs) : Except Failure Client := do
  let param ← getSshParam env args false
  sshLogin env depth param none .no

def UdpMode.isUdp (mode : UdpMode) : Bool := mode != .no

def Ends {A : Type} (smooth : Prop) (x : Except Failure A) (post : A → Prop) : Prop :=
  (smooth → ∃ a, x = .ok a ∧ post a) ∧ (¬ smooth → ∃ client dest, x = .error (.notUdpClient client dest))

variable {env}

theorem ends_ok {x : A} (holds : smooth) (kept : post x) :
    Ends smooth (.ok x) post := ⟨fun _ => ⟨x, rfl, kept⟩, fun rough => absurd holds rough⟩

theorem Ends.bind {f : A → Except Failure B} {P Q : Prop} {last : B → Prop} (here : Ends P x post)
    (later : ∀ a, post a → Ends Q (f a) last) : Ends (P ∧ Q) (x >>= f) last := by
  by_cases smooth : P
  · obtain ⟨a, rfl, kept⟩ := here.1 smooth
    have rest := later a kept
    exact ⟨fun both => rest.1 both.2, fun rough => rest.2 fun fine => rough ⟨smooth, fine⟩⟩
  · obtain ⟨client, dest, rfl⟩ := here.2 smooth
    exact ⟨fun both => absurd both.1 smooth, fun _ => ⟨client, dest, rfl⟩⟩

theorem Ends.iff (ends : Ends smooth x post) :
    ((∃ a, x = .ok a) ↔ smooth) ∧ ((∃ client dest, x = .error (.notUdpClient client dest)) ↔ ¬ smooth) := by
  by_cases fine : smooth
  · obtain ⟨a, rfl, _⟩ := ends.1 fine
    simp [fine]
  · obtain ⟨client, dest, rfl⟩ := ends.2 fine
    simp [fine]

theorem Ends.congr {first second : Prop} (ends : Ends first x post) (same : first ↔ second) : Ends second x post := by
  rwa [Ends, ← same]

section Levels
variable (env)

def hostUdp (spec : Bytes) : Bool := (hopParam env (jumpArgs spec) true).udpMode.isUdp

def specUdp (spec : Bytes) : Bool := (getUdpMode env (jumpArgs spec)).isUdp

def wanted (required : Bool) (specs : List Bytes) : Bool := required || specs.any (specUdp env)

inductive Expansion : List Bytes → List (List Bytes) → Prop where
  | direct : Expansion [] []
  | through {spec : Bytes} {specs : List Bytes} {levels : List (List Bytes)}
      (next : Expansion (hopParam env (jumpArgs spec) true).proxies levels) :
      Expansion (spec :: specs) ((spec :: specs) :: levels)

/-- A UDP host stands behind another one, or the texts of the specs from there on show a
    UDP mode. -/
def Ordered : List Bytes → Prop
  | near :: far :: rest =>
    (hostUdp env far = true → hostUdp env near = true ∨ (near :: far :: rest).any (specUdp env) = true) ∧
      Ordered (far :: rest)
  | _ => True

def Smooth : Bool → List (List Bytes) → Prop
  | required, (spec :: specs) :: levels =>
    (required = true ∨ Ordered env (spec :: specs)) ∧
      Smooth (wanted env required (spec :: specs) || hostUdp env spec) levels
  | _, _ => True

end Levels

theorem raised_udp (required mode : UdpMode) : (raised required mode).isUdp = (required.isUdp || mode.isUdp) := by
  cases required <;> cases mode <;> rfl

theorem carried_udp (required mode : UdpMode) : (carried required mode).isUdp = (required.isUdp || mode.isUdp) := by
  cases required <;> cases mode <;> rfl

theorem carried_raised (required mode : UdpMode) :
    (carried required (raised required mode)).isUdp = (raised required mode).isUdp := by
  cases required <;> cases mode <;> rfl

theorem udp_modes_required (requireUDP : UdpMode) (specs : List Bytes) :
    (udpModes env requireUDP specs).1.isUdp = wanted env requireUDP.isUdp specs := by
  induction specs with
  | nil => simp [udpModes, wanted]
  | cons spec specs ih =>
    simp only [udpModes, carried_udp, raised_udp, ih, wanted, List.any_cons, specUdp]
    grind

theorem udp_modes_cons (env : Settings) (requireUDP : UdpMode) (spec : Bytes) (specs : List Bytes) :
    ∃ mode, (udpModes env requireUDP (spec :: specs)).2 = mode :: (udpModes env requireUDP specs).2 ∧
      mode.isUdp = wanted env requireUDP.isUdp (spec :: specs) := by
  refine ⟨_, rfl, ?_⟩
  simp only [raised_udp, udp_modes_required, wanted, List.any_cons, specUdp]
  grind

theorem is_udp_false {mode : UdpMode} : mode.isUdp = false ↔ mode = .no := by
  cases mode <;> simp [UdpMode.isUdp]

def Client.isUdp : Client → Bool
  | .tcp => false
  | .udp => true

theorem hop_found (args : SshArgs) (proxy : Bool) (named : hostOf args.destination ≠ []) :
    getSshParam env args proxy = .ok (hopParam env args proxy) := if_neg named

theorem proxy_param_bare (args : SshArgs) (jumps : (getProxyParam env args).1 ≠ []) :
    (getProxyParam env args).2 = [] := by
  unfold getProxyParam at *
  grind

theorem hop_bare {args : SshArgs} {proxy : Bool} (jumps : (hopParam env args proxy).proxies ≠ []) :
    (hopParam env args proxy).command = [] :=
  proxy_param_bare _ fun none => jumps (by simp [hopParam, none])

theorem tcp_login_direct {login : Login} (jumps : param.proxies = []) (requireUDP : UdpMode) :
    tcpLogin env login param none requireUDP = .ok (param, .tcp) := by
  simp only [tcpLogin, jumps, if_true, ite_self]

theorem tcp_login_jumps {login : Login} (jumps : param.proxies ≠ []) (bare : param.command = [])
    (requireUDP : UdpMode) : tcpLogin env login param none requireUDP =
      proxyLogins env login none (param.proxies.zip (udpModes env requireUDP param.proxies).2) >>= fun last =>
        .ok ({ param with proxy := last }, .tcp) := by
  simp only [tcpLogin, bare, jumps, if_false, ne_eq, not_true]

theorem login_end (param : SshParam) :
    Ends (param.udpMode.isUdp = true → ∀ via, param.proxy = some via → via.client.isUdp = true)
      (if param.udpMode = .no then .ok .tcp else udpLogin param)
      (fun client => client.isUdp = param.udpMode.isUdp) := by
  cases mode : param.udpMode.isUdp with
  | false =>
    rw [if_pos (is_udp_false.1 mode)]
    exact ends_ok (by simp) rfl
  | true =>
    have udp : param.udpMode ≠ .no := by
      intro no
      rw [is_udp_false.2 no] at mode
      cases mode
    rw [if_neg udp, udpLogin]
    cases proxy : param.proxy with
    | none => exact ends_ok (by simp) rfl
    | some via =>
      cases client : via.client with
      | tcp =>
        refine ⟨fun smooth => ?_, fun _ => ⟨.tcp, param.args.destination, by simp only [client]⟩⟩
        have udp := smooth rfl via rfl
        rw [client] at udp
        cases udp
      | udp =>
        simp only [client]
        refine ends_ok ?_ rfl
        intro _ jump same
        cases same
        rw [client]
        rfl

theorem login_behind (env : Settings) (depth : Nat) (param : SshParam) (via : ProxyJump) (requireUDP : UdpMode) :
    Ends ((requireUDP.isUdp || param.udpMode.isUdp) = true → via.client.isUdp = true)
      (sshLogin env (depth + 1) param (some via) requireUDP)
      (fun client => client.isUdp = (requireUDP.isUdp || param.udpMode.isUdp)) := by
  have last := login_end { param with udpMode := raised requireUDP param.udpMode, proxy := some via }
  simp only [raised_udp] at last
  exact last.congr (by simp)

def Follows (env : Settings) (required : Bool) : Bool → List Bytes → Prop
  | _, [] => True
  | near, spec :: specs =>
    let far := wanted env required (spec :: specs) || hostUdp env spec
    (far = true → near = true) ∧ Follows env required far specs

theorem logins_behind (env : Settings) (depth : Nat) (requireUDP : UdpMode) (specs : List Bytes)
    (hosts : ∀ spec ∈ specs, hostOf spec ≠ []) (via : ProxyJump)
    (first : requireUDP.isUdp = true → via.client.isUdp = true) :
    Ends (Follows env requireUDP.isUdp via.client.isUdp specs)
      (proxyLogins env (sshLogin env (depth + 1)) (some via) (specs.zip (udpModes env requireUDP specs).2))
      (fun last => ∃ jump, last = some jump ∧ (requireUDP.isUdp = true → jump.client.isUdp = true)) := by
  induction specs generalizing via with
  | nil => exact ends_ok trivial ⟨via, rfl, first⟩
  | cons spec specs ih =>
    obtain ⟨mode, modes, udp⟩ := udp_modes_cons env requireUDP spec specs
    rw [modes, List.zip_cons_cons, proxyLogins, hop_found (jumpArgs spec) true (hosts spec List.mem_cons_self)]
    have here := login_behind env depth (hopParam env (jumpArgs spec) true) via mode
    rw [udp] at here
    refine here.bind ?_
    intro client bit
    have far : client.isUdp = (wanted env requireUDP.isUdp (spec :: specs) || hostUdp env spec) := bit
    rw [← far]
    refine ih (fun s member => hosts s (List.mem_cons_of_mem _ member)) ⟨client, spec⟩ ?_
    intro required
    change client.isUdp = true
    rw [far, required]
    rfl

theorem follows_iff (required : Bool) (near : Bytes) (specs : List Bytes) :
    Follows env required (wanted env required (near :: specs) || hostUdp env near) specs ↔
      required = true ∨ Ordered env (near :: specs) := by
  induction specs generalizing near with
  | nil => simp [Follows, Ordered]
  | cons far specs ih =>
    simp only [Follows, ih, Ordered]
    simp only [wanted, List.any_cons, Bool.or_eq_true]
    grind

def Way (udp : Bool) (way : SshParam × Client) : Prop :=
  way.2 = .tcp ∧ way.1.udpMode.isUdp = udp ∧ (udp = true → ∀ via, way.1.proxy = some via → via.client.isUdp = true)

theorem login_rest {udp : Bool} {requireUDP : UdpMode}
    (way : Ends smooth
      (tcpLogin env (sshLogin env depth) { param with udpMode := raised requireUDP param.udpMode } none
        (carried requireUDP (raised requireUDP param.udpMode))) (Way udp)) :
    Ends smooth (sshLogin env (depth + 1) param none requireUDP) (fun client => client.isUdp = udp) := by
  rw [sshLogin]
  refine Ends.congr (Ends.bind way (Q := True) ?_) (iff_of_eq (and_true smooth))
  rintro ⟨found, client⟩ ⟨tcp, mode, behind⟩
  obtain rfl : client = .tcp := tcp
  have last := login_end found
  rw [show found.udpMode.isUdp = udp from mode] at last
  exact last.congr (iff_true_intro behind)

theorem first_login {args : SshArgs} {proxy : Bool} (mode : UdpMode)
    (way : ∀ param : SshParam, param.proxies = (hopParam env args proxy).proxies →
      (param.proxies ≠ [] → param.command = []) → param.proxy = none →
      ∀ required : UdpMode, required.isUdp = param.udpMode.isUdp →
        Ends (Smooth env param.udpMode.isUdp levels) (tcpLogin env (sshLogin env depth) param none required)
          (Way param.udpMode.isUdp)) :
    Ends (Smooth env (mode.isUdp || (hopParam env args proxy).udpMode.isUdp) levels)
      (sshLogin env (depth + 1) (hopParam env args proxy) none mode)
      (fun client => client.isUdp = (mode.isUdp || (hopParam env args proxy).udpMode.isUdp)) := by
  let hop := hopParam env args proxy
  have here := way { hop with udpMode := raised mode hop.udpMode } rfl hop_bare rfl _ (carried_raised mode _)
  rw [raised_udp] at here
  exact login_rest here

theorem jump_logins (requireUDP : UdpMode) {spec : Bytes} {specs : List Bytes}
    (hosts : ∀ p ∈ spec :: specs, hostOf p ≠ [])
    (first : ∀ mode, Ends (Smooth env (mode.isUdp || hostUdp env spec) levels)
      (sshLogin env (depth + 1) (hopParam env (jumpArgs spec) true) none mode)
      (fun client => client.isUdp = (mode.isUdp || hostUdp env spec))) :
    Ends (Smooth env (wanted env requireUDP.isUdp (spec :: specs) || hostUdp env spec) levels ∧
        (requireUDP.isUdp = true ∨ Ordered env (spec :: specs)))
      (proxyLogins env (sshLogin env (depth + 1)) none
        ((spec :: specs).zip (udpModes env requireUDP (spec :: specs)).2))
      (fun last => ∃ jump, last = some jump ∧ (requireUDP.isUdp = true → jump.client.isUdp = true)) := by
  obtain ⟨mode, modes, udp⟩ := udp_modes_cons env requireUDP spec specs
  rw [modes, List.zip_cons_cons, proxyLogins, hop_found (jumpArgs spec) true (hosts spec List.mem_cons_self), ← udp]
  refine (first mode).bind ?_
  intro client bit
  have rest := logins_behind env depth requireUDP specs
    (fun p member => hosts p (List.mem_cons_of_mem _ member)) ⟨client, spec⟩ ?_
  · rw [show client.isUdp = _ from bit, udp] at rest
    exact rest.congr (follows_iff _ _ _)
  · intro required
    change client.isUdp = true
    rw [bit, udp, required]
    rfl

theorem way_from {specs : List Bytes} (finite : Expansion env specs levels)
    (hosts : ∀ level ∈ levels, ∀ spec ∈ level, hostOf spec ≠ []) (deep : levels.length ≤ depth)
    (param : SshParam) (jumps : param.proxies = specs) (bare : param.proxies ≠ [] → param.command = [])
    (unset : param.proxy = none) (required : UdpMode) (same : required.isUdp = param.udpMode.isUdp) :
    Ends (Smooth env param.udpMode.isUdp levels) (tcpLogin env (sshLogin env depth) param none required)
      (Way param.udpMode.isUdp) := by
  induction finite generalizing depth param required with
  | direct =>
    rw [tcp_login_direct jumps]
    exact ends_ok (by simp [Smooth]) ⟨rfl, rfl, by simp [unset]⟩
  | through next ih =>
    rename_i spec specs levels
    obtain ⟨depth, rfl⟩ := Nat.exists_eq_add_one.2 (Nat.zero_lt_of_lt deep)
    rw [tcp_login_jumps (by simp [jumps]) (bare (by simp [jumps])), jumps]
    have first (mode : UdpMode) := first_login mode
      (ih (fun level member => hosts level (List.mem_cons_of_mem _ member)) (Nat.le_of_succ_le_succ deep))
    have loop := jump_logins required (hosts _ List.mem_cons_self) first
    rw [same] at loop
    refine Ends.congr (Ends.bind loop (Q := True) ?_) ?_
    · rintro _ ⟨jump, rfl, udp⟩
      refine ends_ok trivial ⟨rfl, rfl, ?_⟩
      intro required via found
      cases found
      exact udp required
    · simp only [Smooth]
      grind

/-- A destination with a finite expansion is reached if and only if its jump lists are
    smooth; otherwise a hop that goes on with UDP meets a proxy without it. -/
theorem jump_chain_iff {args : SshArgs} (named : hostOf args.destination ≠ []) {levels : List (List Bytes)}
    (finite : Expansion env (hopParam env args false).proxies levels)
    (hosts : ∀ level ∈ levels, ∀ spec ∈ level, hostOf spec ≠ []) {depth : Nat} (deep : levels.length < depth) :
    ((∃ client, sshConnect env depth args = .ok client) ↔
      Smooth env (hopParam env args false).udpMode.isUdp levels) ∧
    ((∃ client dest, sshConnect env depth args = .error (.notUdpClient client dest)) ↔
      ¬ Smooth env (hopParam env args false).udpMode.isUdp levels) := by
  obtain ⟨depth, rfl⟩ := Nat.exists_eq_add_one.2 (Nat.zero_lt_of_lt deep)
  have login := first_login .no (way_from finite hosts (Nat.le_of_lt_succ deep))
  have connect : sshConnect env (depth + 1) args = sshLogin env (depth + 1) (hopParam env args false) none .no := by
    rw [sshConnect, hop_found args false named]
    rfl
  rw [connect]
  exact login.iff

def office (second : Bytes) : Settings where
  tables := latinTables
  udpMode name := if name = text "jump2" then text "yes" else []
  proxyJump name := if name = text "target" then text "jump1," ++ second else []
  proxyCommand _ := []
  canonicalName _ host := host
  expandTokens _ spec := spec

def toTarget : SshArgs := { destination := text "target" }

theorem plain_specs_reached : ∃ client, sshConnect (office (text "jump2")) 2 toTarget = .ok client := by
  have jumps : (hopParam (office (text "jump2")) toTarget false).proxies = [text "jump1", text "jump2"] := by
    decide +kernel
  have direct : (hopParam (office (text "jump2")) (jumpArgs (text "jump1")) true).proxies = [] := by decide +kernel
  have finite : Expansion (office (text "jump2")) (hopParam (office (text "jump2")) toTarget false).proxies
      [[text "jump1", text "jump2"]] := by
    rw [jumps]
    exact .through (direct ▸ .direct)
  refine (jump_chain_iff (by decide +kernel) finite (by decide +kernel) (Nat.lt_succ_self _)).1.2 ?_
  refine ⟨Or.inr ⟨fun _ => Or.inr ?_, trivial⟩, trivial⟩
  decide +kernel

/-- With a user in the second spec its mode is seen only when the first hop is logged in. -/
theorem user_spec_fails : sshConnect (office (text "me@jump2")) 2 toTarget =
    .error (.notUdpClient .tcp (text "jump2")) := by
  decide +kernel

end JumpChains
