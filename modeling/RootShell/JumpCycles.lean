import RootShell.JumpChains

/-!
When the logins along jump hosts come to an end. Only the first host of a jump list is
logged in without a proxy, so its own jump list is followed, and that of its first host.
-/
namespace JumpCycles
open ByteLines ByteText JumpChains
variable {env : Settings} {depth : Nat} {args : SshArgs}

inductive Halts (env : Settings) : List Bytes → Prop where
  | direct : Halts env []
  | nameless {spec : Bytes} {specs : List Bytes} (empty : hostOf spec = []) : Halts env (spec :: specs)
  | through {spec : Bytes} {specs : List Bytes} (next : Halts env (hopParam env (jumpArgs spec) true).proxies) :
      Halts env (spec :: specs)

section Results
variable {A B : Type}

def Settled (x : Except Failure A) : Prop := x ≠ .error .endless

theorem settled_ok (a : A) : Settled (.ok a) := by
  intro endless
  cases endless

theorem settled_bind {x : Except Failure A} {f : A → Except Failure B} (first : Settled x)
    (later : ∀ a, x = .ok a → Settled (f a)) : Settled (x >>= f) := by
  cases x with
  | error failure => exact fun endless => first (by cases endless; rfl)
  | ok a => exact later a rfl

def Extends (x y : Except Failure A) : Prop := Settled x → y = x

theorem extends_bind {x y : Except Failure A} {f g : A → Except Failure B} (first : Extends x y)
    (later : ∀ a, Extends (f a) (g a)) : Extends (x >>= f) (y >>= g) := by
  intro settled
  have here : Settled x := by
    rintro rfl
    exact settled rfl
  rw [first here]
  cases x with
  | error failure => rfl
  | ok a => exact later a settled

end Results

section Depth

theorem proxy_logins_extend {login other : Login}
    (deeper : ∀ param proxy mode, Extends (login param proxy mode) (other param proxy mode))
    (hops : List (Bytes × UdpMode)) (proxy : Option ProxyJump) :
    Extends (proxyLogins env login proxy hops) (proxyLogins env other proxy hops) := by
  induction hops generalizing proxy with
  | nil => exact fun _ => rfl
  | cons hop hops ih =>
    obtain ⟨spec, mode⟩ := hop
    rw [proxyLogins, proxyLogins]
    refine extends_bind (fun _ => rfl) fun param => ?_
    exact extends_bind (deeper param proxy mode) fun client => ih _

theorem tcp_login_extend {login other : Login}
    (deeper : ∀ param proxy mode, Extends (login param proxy mode) (other param proxy mode))
    (param : SshParam) (proxy : Option ProxyJump) (mode : UdpMode) :
    Extends (tcpLogin env login param proxy mode) (tcpLogin env other param proxy mode) := by
  unfold tcpLogin
  cases proxy with
  | some via => exact fun _ => rfl
  | none =>
    dsimp only
    split
    · exact fun _ => rfl
    · split
      · exact fun _ => rfl
      · exact extends_bind (proxy_logins_extend deeper _ _) fun last _ => rfl

theorem ssh_login_extend (depth : Nat) (param : SshParam) (proxy : Option ProxyJump) (mode : UdpMode) :
    Extends (sshLogin env depth param proxy mode) (sshLogin env (depth + 1) param proxy mode) := by
  induction depth generalizing param proxy mode with
  | zero => exact fun settled => absurd rfl settled
  | succ depth ih =>
    rw [sshLogin, sshLogin]
    exact extends_bind (tcp_login_extend ih _ _ _) fun out _ => rfl

theorem ssh_connect_deeper {more : Nat} (settled : Settled (sshConnect env depth args))
    (deep : depth ≤ more) : sshConnect env more args = sshConnect env depth args := by
  induction more, deep using Nat.le_induction with
  | base => rfl
  | succ more _ ih =>
    rw [← ih] at settled ⊢
    exact extends_bind (fun _ => rfl) (fun param => ssh_login_extend more param none .no) settled

end Depth

section Chains

theorem udp_login_settled (param : SshParam) : Settled (udpLogin param) := by
  unfold udpLogin
  split
  · exact nofun
  · split <;> exact nofun

variable {param : SshParam} {specs : List Bytes}

theorem login_settled {proxy : Option ProxyJump} {mode : UdpMode}
    (way : Settled (tcpLogin env (sshLogin env depth) { param with udpMode := raised mode param.udpMode } proxy
      (carried mode (raised mode param.udpMode)))) : Settled (sshLogin env (depth + 1) param proxy mode) := by
  rw [sshLogin]
  refine settled_bind way fun out _ => ?_
  dsimp only
  split
  · exact settled_ok _
  · exact udp_login_settled _

theorem param_settled (args : SshArgs) (proxy : Bool) : Settled (getSshParam env args proxy) := by
  unfold getSshParam
  split <;> exact nofun

theorem param_found {proxy : Bool} {found : SshParam} (given : getSshParam env args proxy = .ok found) :
    hostOf args.destination ≠ [] ∧ found = hopParam env args proxy := by
  unfold getSshParam at given
  split at given
  · cases given
  · rename_i named
    exact ⟨named, (Except.ok.inj given).symm⟩

theorem logins_behind_settled (depth : Nat) (hops : List (Bytes × UdpMode)) (via : ProxyJump) :
    Settled (proxyLogins env (sshLogin env (depth + 1)) (some via) hops) := by
  induction hops generalizing via with
  | nil => exact settled_ok _
  | cons hop hops ih =>
    obtain ⟨spec, mode⟩ := hop
    rw [proxyLogins]
    refine settled_bind (param_settled _ _) fun param _ => ?_
    exact settled_bind (login_settled (settled_ok _)) fun client _ => ih _

theorem jumps_settled {spec : Bytes}
    (jumps : param.proxies = spec :: specs)
    (first : ∀ found mode, getSshParam env (jumpArgs spec) true = .ok found →
      Settled (sshLogin env (depth + 1) found none mode)) (required : UdpMode) :
    Settled (tcpLogin env (sshLogin env (depth + 1)) param none required) := by
  unfold tcpLogin
  dsimp only
  split
  · exact settled_ok _
  · rw [if_neg (by simp [jumps]), jumps]
    obtain ⟨mode, modes, _⟩ := udp_modes_cons env required spec specs
    rw [modes, List.zip_cons_cons, proxyLogins]
    refine settled_bind ?_ fun last _ => settled_ok _
    refine settled_bind (param_settled _ _) fun found given => ?_
    exact settled_bind (first found mode given) fun client _ => logins_behind_settled depth _ _

theorem way_settled (halts : Halts env specs) :
    ∃ depth, ∀ (param : SshParam) (mode : UdpMode), param.proxies = specs →
      Settled (tcpLogin env (sshLogin env depth) param none mode) := by
  -- The depth grows by one for each first host of the chain; hosts behind it add nothing.
  induction halts with
  | direct =>
    refine ⟨0, fun param mode jumps => ?_⟩
    rw [tcp_login_direct jumps]
    exact nofun
  | nameless empty =>
    refine ⟨1, fun param mode jumps => jumps_settled jumps (fun found mode given => ?_) mode⟩
    exact absurd empty (param_found given).1
  | through next ih =>
    obtain ⟨depth, way⟩ := ih
    refine ⟨depth + 1, fun param mode jumps => jumps_settled jumps (fun found mode given => ?_) mode⟩
    obtain ⟨_, rfl⟩ := param_found given
    exact login_settled (way _ _ rfl)

theorem login_endless (cyclic : ¬ Halts env param.proxies) (bare : param.proxies ≠ [] → param.command = [])
    (mode : UdpMode) : sshLogin env depth param none mode = .error .endless := by
  induction depth generalizing param mode with
  | zero => rfl
  | succ depth ih =>
    cases jumps : param.proxies with
    | nil => exact absurd (jumps ▸ .direct) cyclic
    | cons spec specs =>
      rw [jumps] at cyclic
      have named : hostOf spec ≠ [] := fun empty => cyclic (.nameless empty)
      have onward : ¬ Halts env (hopParam env (jumpArgs spec) true).proxies := fun next => cyclic (.through next)
      have listed : { param with udpMode := raised mode param.udpMode }.proxies ≠ [] := by simp [jumps]
      obtain ⟨first, modes, _⟩ := udp_modes_cons env (carried mode (raised mode param.udpMode)) spec specs
      rw [sshLogin, tcp_login_jumps listed (bare listed)]
      dsimp only
      rw [jumps, modes, List.zip_cons_cons, proxyLogins, hop_found (jumpArgs spec) true named]
      change (do
        let client ← sshLogin env depth (hopParam env (jumpArgs spec) true) none first
        _) >>= _ >>= _ = _
      rw [ih onward hop_bare first]
      rfl

theorem connect_login (named : hostOf args.destination ≠ []) (depth : Nat) :
    sshConnect env depth args = sshLogin env depth (hopParam env args false) none .no := by
  rw [sshConnect, hop_found args false named]
  rfl

/-- The logins come to an end, with the same result for every depth that is enough, exactly
    if the destination names no host or the chain of its first jump hosts comes to an end. -/
theorem login_ends_iff (env : Settings) (args : SshArgs) :
    (∃ depth result, result ≠ .error .endless ∧ ∀ more, depth ≤ more → sshConnect env more args = result) ↔
      hostOf args.destination = [] ∨ Halts env (hopParam env args false).proxies := by
  constructor
  · rintro ⟨depth, result, settled, same⟩
    by_contra neither
    obtain ⟨named, cyclic⟩ := not_or.1 neither
    refine settled ((same depth (Nat.le_refl _)).symm.trans ?_)
    rw [connect_login named, login_endless cyclic hop_bare]
  · rintro (empty | halts)
    · refine ⟨0, .error (.emptyHost args.destination), nofun, fun more _ => ?_⟩
      rw [sshConnect, getSshParam, if_pos empty]
      rfl
    · obtain ⟨depth, way⟩ := way_settled halts
      have settled : Settled (sshConnect env (depth + 1) args) :=
        settled_bind (param_settled _ _) fun found given => by
          obtain ⟨_, rfl⟩ := param_found given
          exact login_settled (way _ _ rfl)
      exact ⟨depth + 1, _, settled, fun more deep => ssh_connect_deeper settled deep⟩

theorem office_login_ends :
    ∃ depth result, result ≠ .error .endless ∧
      ∀ more, depth ≤ more → sshConnect (office (text "jump2")) more toTarget = result := by
  have jumps : (hopParam (office (text "jump2")) toTarget false).proxies = [text "jump1", text "jump2"] := by
    decide +kernel
  have direct : (hopParam (office (text "jump2")) (jumpArgs (text "jump1")) true).proxies = [] := by decide +kernel
  refine (login_ends_iff (office (text "jump2")) toTarget).2 (Or.inr ?_)
  rw [jumps]
  exact .through (direct ▸ .direct)

def everywhere : Settings where
  tables := latinTables
  udpMode _ := []
  proxyJump _ := text "bastion"
  proxyCommand _ := []
  canonicalName _ host := host
  expandTokens _ spec := spec

theorem everywhere_cyclic (halts : Halts everywhere specs) : specs ≠ [text "bastion"] := by
  induction halts with
  | direct => exact nofun
  | nameless empty =>
    rintro same
    cases same
    exact absurd empty (by decide +kernel)
  | through next ih =>
    rintro same
    cases same
    exact ih (by decide +kernel)

/-- The host is named, but its jump host is itself behind the jump host, and so on without end. -/
theorem everywhere_endless :
    hostOf toTarget.destination ≠ [] ∧ ∀ depth, sshConnect everywhere depth toTarget = .error .endless := by
  have named : hostOf toTarget.destination ≠ [] := by decide +kernel
  refine ⟨named, fun depth => ?_⟩
  have jumps : (hopParam everywhere toTarget false).proxies = [text "bastion"] := by decide +kernel
  rw [connect_login named]
  exact login_endless (fun halts => everywhere_cyclic halts jumps) hop_bare _

end Chains

end JumpCycles
