import RootShell.MitmDecisions
import RootShell.ThreadPools
import Mathlib.Algebra.BigOperators.Pi

/-!
TLS connections that the capture layer looks at (vpntunnel/mitm.go), with the configurations that
come and go while they are open. An intercepted connection holds a slot of the semaphore its own
configuration came with and is counted by the environment it found when it began.
-/
namespace MitmFlows
open ByteLines ByteText HostRules MitmDecisions Interleaving ThreadPools
variable {n k : Nat} {u : CaseTables} {ios : Bool} {i : Fin n} {cs : CaptureState}

def mitmFlowCap (ios : Bool) (transport : Bytes) : Nat :=
  if ios = false then 256 else if transport = text "ssh" ∨ transport = text "tailscale" then 24 else 32

inductive Phase where
  | idle
  | loaded
  | ready
  | screened
  | slotTaken
  | counted
  | dialed
  | secured
  | decided
  | serving
  | rejecting
  | pinned
  | passing
  | relaying
  | returning
  | uncounting
  | ended
  deriving DecidableEq

inductive Upstream where
  | missing
  | opened
  | closed
  deriving DecidableEq

def Upstream.close : Upstream → Upstream
  | .missing => .missing
  | _ => .closed

/-- `serveTLS` and its `tlsDecision`; `held` is the semaphore it has a slot of and `live` the environment
    that counts it. -/
structure Flow where
  phase : Phase
  cs : Option CaptureState
  env : Option Nat
  pass : Option Pass
  held : Option Nat
  live : Option Nat
  upstream : Upstream
  relay : Upstream
  alpn : Bytes
  nextProtos : List Bytes

structure CaptureEnv where
  transport : Bytes
  bypass : List Bytes
  empty : Empties
  mitmLive : Int
  overflow : Nat

/-- The semaphores made so far by their sizes and how many slots of each are taken, the configuration in force,
    and the environments, of which those not made yet are empty. -/
structure Shared where
  caps : List Nat
  used : Nat → Nat
  cur : Option CaptureState
  envs : Nat → CaptureEnv
  made : Nat
  env : Option Nat

def Shared.capOf (s : Shared) (k : Nat) : Nat := s.caps.getD k 0

def Shared.onEnv (s : Shared) (k : Nat) (f : CaptureEnv → CaptureEnv) : Shared :=
  { s with envs := Function.update s.envs k (f (s.envs k)) }

def Shared.setUsed (s : Shared) (k used : Nat) : Shared := { s with used := Function.update s.used k used }

structure Client where
  hello : ClientHello
  dst : Destination

inductive Stage where
  | garbage
  | screen
  | takeSlot
  | countLive
  | dial (ok : Bool)
  | upstreamTLS (alpn : Bytes)
  | upstreamFails (askedForClientCert : Bool)
  | mint (ok : Bool)
  | handshake
  | handshakeFails (certRejection : Bool)
  | served (requests : Nat) (now : Int)
  | bypass
  | relay (ok : Bool)
  | relayEnds
  | uncount

inductive Own where
  | load
  | enter
  | release
  | finish
  | stage (a : Stage)

structure Config where
  hosts : Option HostMatcher
  minter : Bool
  enableH2 : Bool
  autoBypassPinned : Bool

inductive Outer where
  | resetCaptureTunnelState (transport : Bytes)
  | applyCaptureConfig (env : Nat) (cfg : Config)
  | closeCapture

namespace Flow
variable (f : Flow)

@[simp] def goto (next : Phase) : Flow := { f with phase := next }

/-- The handshake fails on purpose and the connection is relayed. -/
@[simp] def passOver (why : Pass) : Flow := { f with phase := .passing, pass := some why }

@[simp] def hangUp : Flow := { f with upstream := f.upstream.close }

end Flow

def advance (u : CaseTables) (c : Client) (s : Shared) (f : Flow) (cs : CaptureState) (k : Nat) :
    Stage → Option (Shared × Flow)
  | .screen =>
    if f.phase = .ready then
      match screen u cs ((s.envs k).bypass.contains (hostName u c.hello c.dst)) c.hello c.dst with
      | none => some (s, f.goto .screened)
      | some why => some (s, f.passOver why)
    else none
  | .garbage => if f.phase = .ready then some (s, f.goto .returning) else none
  | .takeSlot =>
    if f.phase = .screened then
      if s.used cs.mitmSem < s.capOf cs.mitmSem then
        some (s.setUsed cs.mitmSem (s.used cs.mitmSem + 1), { f.goto .slotTaken with held := some cs.mitmSem })
      else some (s.onEnv k fun e => { e with overflow := e.overflow + 1 }, f.passOver .capacity)
    else none
  | .countLive =>
    if f.phase = .slotTaken then
      some (s.onEnv k fun e => { e with mitmLive := e.mitmLive + 1 }, { f.goto .counted with live := some k })
    else none
  | .dial ok =>
    if f.phase = .counted then
      some (s, if ok then { f.goto .dialed with upstream := .opened } else f.passOver .upstreamDial)
    else none
  | .upstreamTLS alpn =>
    -- a server cannot choose a protocol that it was not offered
    if f.phase = .dialed ∧ (alpn = [] ∨ alpn ∈ filterALPN c.hello.supportedProtos cs.enableH2) then
      some (s, { f.goto .secured with alpn := alpn })
    else none
  | .upstreamFails asked =>
    if f.phase = .dialed then
      some (s, f.hangUp.passOver (if asked then .clientCertRequired else .upstreamTLS))
    else none
  | .mint ok =>
    if f.phase = .secured then
      some (s, if ok then { f.goto .decided with nextProtos := if f.alpn = [] then [] else [f.alpn] }
        else f.hangUp.passOver .mintFailed)
    else none
  | .handshake => if f.phase = .decided then some (s, f.goto .serving) else none
  | .handshakeFails rejection =>
    if f.phase = .decided then
      some (s, f.hangUp.goto (if rejection = true ∧ cs.autoBypassPinned = true then .rejecting else .returning))
    else none
  | .served requests now =>
    if f.phase = .serving then
      let host := hostName u c.hello c.dst
      if requests = 0 then
        let noted := noteEmptyMITM (s.envs k).empty host now
        some (s.onEnv k fun e => { e with empty := noted.1 },
          f.hangUp.goto (if noted.2 = true ∧ cs.autoBypassPinned = true then .pinned else .returning))
      else some (s.onEnv k fun e => { e with empty := noteServedMITM e.empty host }, f.hangUp.goto .returning)
    else none
  | .bypass =>
    if f.phase = .rejecting ∨ f.phase = .pinned then
      some (s.onEnv k fun e => { e with bypass := hostName u c.hello c.dst :: e.bypass }, f.goto .returning)
    else none
  | .relay ok =>
    if f.phase = .passing then
      some (s, if ok then { f.goto .relaying with relay := .opened } else f.goto .returning)
    else none
  | .relayEnds =>
    if f.phase = .relaying then some (s, { f.goto .returning with relay := f.relay.close }) else none
  | .uncount =>
    if f.phase = .uncounting then
      some (s.onEnv k fun e => { e with mitmLive := e.mitmLive - 1 }, { f.goto .ended with live := none })
    else none

def own (u : CaseTables) (clients : Fin n → Client) (i : Fin n) (s : Shared) (f : Flow) : Own → Option (Shared × Flow)
  | .load => if f.phase = .idle ∧ s.cur.isSome = true then some (s, { f.goto .loaded with cs := s.cur }) else none
  | .enter => if f.phase = .loaded ∧ s.env.isSome = true then some (s, { f.goto .ready with env := s.env }) else none
  | .release =>
    match f.held with
    | some k =>
      if f.phase = .returning ∧ 0 < s.used k then
        some (s.setUsed k (s.used k - 1), { f.goto .uncounting with held := none })
      else none
    | none => none
  | .finish => if f.phase = .returning ∧ f.held = none then some (s, f.goto .ended) else none
  | .stage a =>
    match f.cs, f.env with
    | some cs, some k => advance u (clients i) s f cs k a
    | _, _ => none

def Config.state (cfg : Config) (sem : Nat) : CaptureState :=
  ⟨cfg.hosts, cfg.minter, cfg.enableH2, cfg.autoBypassPinned, sem⟩

/-- A configuration takes the semaphore of the one before over if it is of the size that it needs. -/
def Shared.applyCaptureConfig (s : Shared) (ios : Bool) (k : Nat) (cfg : Config) : Shared :=
  if s.cur.any fun prev => s.capOf prev.mitmSem = mitmFlowCap ios (s.envs k).transport then
    { s with cur := s.cur.map fun prev => cfg.state prev.mitmSem }
  else
    { s with
      caps := s.caps ++ [mitmFlowCap ios (s.envs k).transport]
      cur := some (cfg.state s.caps.length) }

/-- An end of the capture session leaves all of this as it is; the end of the tunnel does not. -/
def outer (ios : Bool) (s : Shared) : Outer → Option Shared
  | .resetCaptureTunnelState transport =>
    some { s.onEnv s.made (fun e => { e with transport := transport }) with made := s.made + 1, env := some s.made }
  | .applyCaptureConfig k cfg => if k < s.made then some (s.applyCaptureConfig ios k cfg) else none
  | .closeCapture => some { s with cur := none, env := none }

def moves (u : CaseTables) (ios : Bool) (clients : Fin n → Client) : Moves Shared Flow Own Outer n :=
  ⟨own u clients, outer ios⟩

def start (n : Nat) : Pool Shared Flow n where
  shared := ⟨[], fun _ => 0, none, fun _ => ⟨[], [], ∅, 0, 0⟩, 0, none⟩
  locals _ := ⟨.idle, none, none, none, none, none, .missing, .missing, [], []⟩

variable {clients : Fin n → Client} {c : Client} {s t : Shared} {f h : Flow}

theorem own_stage {a : Stage} (moved : own u clients i s f (.stage a) = some (t, h)) :
    ∃ cs k, f.cs = some cs ∧ f.env = some k ∧ advance u (clients i) s f cs k a = some (t, h) := by
  simp only [own] at moved
  split at moved
  · rename_i cs k state env
    exact ⟨cs, k, state, env, moved⟩
  · cases moved

section Locals

def Phase.intercepting : Phase → Bool
  | .screened | .slotTaken | .counted | .dialed | .secured | .decided | .serving | .rejecting | .pinned => true
  | _ => false

def Flow.Holds (f : Flow) : Prop :=
  match f.phase with
  | .idle | .loaded | .ready | .screened | .ended => f.held = none ∧ f.live = none
  | .slotTaken => f.held ≠ none ∧ f.live = none
  | .counted | .dialed | .secured | .decided | .serving | .rejecting | .pinned => f.held ≠ none ∧ f.live = f.env
  | .passing | .relaying | .returning => f.held = none ∧ f.live = none ∨ f.held ≠ none ∧ f.live = f.env
  | .uncounting => f.held = none ∧ f.live = f.env

structure Flow.Sound (u : CaseTables) (c : Client) (f : Flow) : Prop where
  fresh : f.phase = .idle → f.alpn = [] ∧ f.nextProtos = []
  holds : f.Holds
  upstream : f.upstream = .opened → f.phase = .dialed ∨ f.phase = .secured ∨ f.phase = .decided ∨ f.phase = .serving
  relay : f.relay = .opened → f.phase = .relaying
  alpn : f.alpn ≠ [] → ∃ cs, f.cs = some cs ∧ f.alpn ∈ filterALPN c.hello.supportedProtos cs.enableH2
  nextProtos : ∀ p ∈ f.nextProtos, ∃ cs, f.cs = some cs ∧ p ∈ filterALPN c.hello.supportedProtos cs.enableH2

theorem close_ne_opened (r : Upstream) : r.close ≠ .opened := by cases r <;> simp [Upstream.close]

theorem advance_sound {a : Stage} (sound : f.Sound u c) (state : f.cs = some cs)
    (env : f.env = some k) (moved : advance u c s f cs k a = some (t, h)) : h.Sound u c := by
  obtain ⟨fresh, holds, upstream, relay, alpn, nextProtos⟩ := sound
  cases a with
  | screen =>
    obtain ⟨here, moved⟩ := Option.ite_none_right_eq_some.1 moved
    split at moved <;> cases moved <;> constructor <;> simp_all [Flow.Holds]
  | takeSlot =>
    obtain ⟨here, moved⟩ := Option.ite_none_right_eq_some.1 moved
    split at moved <;> cases moved <;> constructor <;> simp_all [Flow.Holds]
  | served requests now =>
    obtain ⟨here, moved⟩ := Option.ite_none_right_eq_some.1 moved
    split at moved
    · cases moved
      constructor <;> split <;> simp_all [Flow.Holds, close_ne_opened]
    · cases moved
      constructor <;> simp_all [Flow.Holds, close_ne_opened]
  | handshakeFails rejection =>
    obtain ⟨here, same⟩ := guarded moved
    cases same
    constructor <;> split <;> simp_all [Flow.Holds, close_ne_opened]
  | dial ok | mint ok | relay ok =>
    obtain ⟨here, same⟩ := guarded moved
    cases same
    cases ok <;> constructor <;> simp_all [Flow.Holds, close_ne_opened]
  | upstreamTLS chosen =>
    obtain ⟨⟨here, offered⟩, same⟩ := guarded moved
    cases same
    constructor <;> simp_all [Flow.Holds]
    intro some_
    exact offered.resolve_left some_
  | bypass =>
    obtain ⟨here, same⟩ := guarded moved
    cases same
    rcases here with here | here <;> constructor <;> simp_all [Flow.Holds]
  | _ =>
    obtain ⟨here, same⟩ := guarded moved
    cases same
    constructor <;> simp_all [Flow.Holds, close_ne_opened]

theorem own_sound {a : Own} (sound : f.Sound u (clients i)) (moved : own u clients i s f a = some (t, h)) :
    h.Sound u (clients i) := by
  cases a with
  | stage a =>
    obtain ⟨cs, k, state, env, moved⟩ := own_stage moved
    exact advance_sound sound state env moved
  | release =>
    simp only [own] at moved
    split at moved
    · obtain ⟨here, same⟩ := guarded moved
      obtain ⟨fresh, holds, upstream, relay, alpn, nextProtos⟩ := sound
      cases same
      constructor <;> simp_all [Flow.Holds]
    · cases moved
  | _ =>
    obtain ⟨here, same⟩ := guarded moved
    obtain ⟨fresh, holds, upstream, relay, alpn, nextProtos⟩ := sound
    cases same
    constructor <;> simp_all [Flow.Holds]

def Flow.Passed (u : CaseTables) (c : Client) (seen : Shared) (f : Flow) : Prop :=
  ∃ cs k, f.cs = some cs ∧ f.env = some k ∧
    Screened u cs ((seen.envs k).bypass.contains (hostName u c.hello c.dst)) c.hello c.dst

theorem own_begins {a : Own} (moved : own u clients i s f a = some (t, h)) (inside : h.phase.intercepting = true) :
    f.phase.intercepting = true ∧ h.cs = f.cs ∧ h.env = f.env ∨
      a = .stage .screen ∧ h.Passed u (clients i) s := by
  cases a with
  | stage a =>
    obtain ⟨cs, k, state, env, moved⟩ := own_stage moved
    cases a with
    | screen =>
      obtain ⟨here, moved⟩ := Option.ite_none_right_eq_some.1 moved
      split at moved
      · rename_i passed
        cases moved
        exact Or.inr ⟨rfl, cs, k, state, env, screened_of_none passed⟩
      · cases moved
        cases inside
    | takeSlot | served requests now =>
      obtain ⟨here, moved⟩ := Option.ite_none_right_eq_some.1 moved
      split at moved <;> cases moved <;> simp_all [Phase.intercepting]
    | dial ok | mint ok | relay ok =>
      obtain ⟨here, same⟩ := guarded moved
      cases same
      cases ok <;> simp_all [Phase.intercepting]
    | _ =>
      obtain ⟨here, same⟩ := guarded moved
      cases same
      simp_all [Phase.intercepting]
  | release =>
    simp only [own] at moved
    split at moved
    · obtain ⟨here, same⟩ := guarded moved
      cases same
      cases inside
    · cases moved
  | _ =>
    obtain ⟨here, same⟩ := guarded moved
    cases same
    cases inside

end Locals

section Slots

def one (o : Option Nat) (k : Nat) : Int := if o = some k then 1 else 0

def Flow.share (f : Flow) : (Nat → Int) × (Nat → Int) := (one f.held, one f.live)

def Shared.share (s : Shared) : (Nat → Int) × (Nat → Int) := (fun k => s.used k, fun k => (s.envs k).mitmLive)

theorem update_sub {v : Type} (l : Nat → v) (g : v → Int) (k : Nat) (x : v) :
    (fun j => g (Function.update l k x j)) = (fun j => g (l j)) + fun j => (g x - g (l k)) * one (some k) j := by
  funext j
  by_cases same : k = j
  · subst same
    simp [one]
  · have other : ¬ j = k := fun h => same h.symm
    simp [one, same, other]

theorem setUsed_share (s : Shared) (k used : Nat) :
    (s.setUsed k used).share - s.share = (fun j => ((used : Int) - s.used k) * one (some k) j, 0) := by
  have change := update_sub s.used (fun m => (m : Int)) k used
  simp only [Shared.share, Shared.setUsed] at *
  rw [change]
  simp

theorem onEnv_share (s : Shared) (k : Nat) (g : CaptureEnv → CaptureEnv) :
    (s.onEnv k g).share - s.share =
      (0, fun j => ((g (s.envs k)).mitmLive - (s.envs k).mitmLive) * one (some k) j) := by
  have change := update_sub s.envs CaptureEnv.mitmLive k (g (s.envs k))
  simp only [Shared.share, Shared.onEnv] at *
  rw [change]
  simp

@[simp] theorem one_none (k : Nat) : one none k = 0 := rfl

theorem one_unit (o : Option Nat) (k : Nat) : 0 ≤ one o k ∧ one o k ≤ 1 := by
  unfold one
  split <;> simp

theorem advance_balance {a : Stage} (sound : f.Sound u c) (env : f.env = some k)
    (moved : advance u c s f cs k a = some (t, h)) : t.share - s.share = h.share - f.share := by
  have holds := sound.holds
  cases a with
  | screen =>
    obtain ⟨here, moved⟩ := Option.ite_none_right_eq_some.1 moved
    split at moved <;> cases moved <;> simp [Flow.share]
  | takeSlot =>
    obtain ⟨here, moved⟩ := Option.ite_none_right_eq_some.1 moved
    simp only [Flow.Holds, here] at holds
    split at moved
    · cases moved
      rw [setUsed_share]
      ext j <;> simp [Flow.share, holds]
    · cases moved
      rw [onEnv_share]
      ext j <;> simp [Flow.share]
  | countLive | uncount =>
    obtain ⟨here, same⟩ := guarded moved
    simp only [Flow.Holds, here] at holds
    cases same
    rw [onEnv_share]
    ext j <;> simp [Flow.share, holds, env]
  | served requests now =>
    obtain ⟨here, moved⟩ := Option.ite_none_right_eq_some.1 moved
    split at moved <;> cases moved <;> rw [onEnv_share] <;> ext j <;> simp [Flow.share]
  | bypass =>
    obtain ⟨here, same⟩ := guarded moved
    cases same
    rw [onEnv_share]
    ext j <;> simp [Flow.share]
  | dial ok | mint ok | relay ok =>
    obtain ⟨here, same⟩ := guarded moved
    cases same
    cases ok <;> simp [Flow.share]
  | _ =>
    obtain ⟨here, same⟩ := guarded moved
    cases same
    simp [Flow.share]

theorem own_balance {a : Own} (sound : f.Sound u (clients i)) (moved : own u clients i s f a = some (t, h)) :
    t.share - s.share = h.share - f.share := by
  cases a with
  | stage a =>
    obtain ⟨cs, k, state, env, moved⟩ := own_stage moved
    exact advance_balance sound env moved
  | release =>
    simp only [own] at moved
    split at moved
    · rename_i k taken
      obtain ⟨here, same⟩ := guarded moved
      cases same
      rw [setUsed_share]
      have less : ((s.used k - 1 : Nat) : Int) - s.used k = -1 := by omega
      ext j <;> simp [Flow.share, taken, less]
    · cases moved
  | _ =>
    obtain ⟨here, same⟩ := guarded moved
    cases same
    simp [Flow.share]

theorem configure_used (s : Shared) (k : Nat) (cfg : Config) :
    (s.applyCaptureConfig ios k cfg).used = s.used ∧ (s.applyCaptureConfig ios k cfg).envs = s.envs := by
  unfold Shared.applyCaptureConfig
  split <;> exact ⟨rfl, rfl⟩

theorem outer_balance {b : Outer} (moved : outer ios s b = some t) : t.share = s.share := by
  cases b with
  | resetCaptureTunnelState transport =>
    cases moved
    have change := onEnv_share s s.made fun e => { e with transport := transport }
    simp only [sub_self, zero_mul] at change
    exact sub_eq_zero.1 change
  | applyCaptureConfig k cfg =>
    obtain ⟨_, same⟩ := guarded moved
    subst same
    simp [Shared.share, configure_used]
  | closeCapture =>
    cases moved
    rfl

theorem share_balanced :
    Balanced (moves u ios clients) (fun i f => f.Sound u (clients i)) Shared.share Flow.share where
  own _ _ _ _ _ _ sound moved := own_balance sound moved
  outer _ _ _ moved := outer_balance moved

def Shared.Within (s : Shared) : Prop := ∀ k, s.used k ≤ s.capOf k

inductive Effect (s t : Shared) : Prop where
  | same (shared : t = s)
  | took (k : Nat) (room : s.used k < s.capOf k) (shared : t = s.setUsed k (s.used k + 1))
  | gave (k : Nat) (shared : t = s.setUsed k (s.used k - 1))
  | noted (k : Nat) (g : CaptureEnv → CaptureEnv) (shared : t = s.onEnv k g) (grows : ∀ e, e.bypass ⊆ (g e).bypass)

theorem advance_effect {a : Stage} (moved : advance u c s f cs k a = some (t, h)) : Effect s t := by
  cases a with
  | screen =>
    obtain ⟨here, moved⟩ := Option.ite_none_right_eq_some.1 moved
    split at moved <;> cases moved <;> exact .same rfl
  | takeSlot =>
    obtain ⟨here, moved⟩ := Option.ite_none_right_eq_some.1 moved
    split at moved
    · rename_i room
      cases moved
      exact .took _ room rfl
    · cases moved
      exact .noted k _ rfl fun e => List.Subset.refl e.bypass
  | served requests now =>
    obtain ⟨here, moved⟩ := Option.ite_none_right_eq_some.1 moved
    split at moved <;> cases moved <;> exact .noted k _ rfl fun e => List.Subset.refl e.bypass
  | countLive | uncount =>
    obtain ⟨here, same⟩ := guarded moved
    cases same
    exact .noted k _ rfl fun e => List.Subset.refl e.bypass
  | bypass =>
    obtain ⟨here, same⟩ := guarded moved
    cases same
    exact .noted k _ rfl fun e => List.subset_cons_self _ e.bypass
  | _ =>
    obtain ⟨here, same⟩ := guarded moved
    cases same
    exact .same rfl

theorem own_effect {a : Own} (moved : own u clients i s f a = some (t, h)) : Effect s t := by
  cases a with
  | stage a =>
    obtain ⟨cs, k, state, env, moved⟩ := own_stage moved
    exact advance_effect moved
  | release =>
    simp only [own] at moved
    split at moved
    · obtain ⟨here, same⟩ := guarded moved
      cases same
      exact .gave _ rfl
    · cases moved
  | _ =>
    obtain ⟨here, same⟩ := guarded moved
    cases same
    exact .same rfl

theorem setUsed_within {m : Nat} (within : s.Within) (room : m ≤ s.capOf k) : (s.setUsed k m).Within := by
  intro j
  by_cases same : j = k
  · subst same
    simpa [Shared.setUsed, Shared.capOf] using room
  · simpa [Shared.setUsed, Shared.capOf, same] using within j

theorem Effect.within (effect : Effect s t) (within : s.Within) : t.Within := by
  cases effect with
  | same shared | noted k g shared grows =>
    subst shared
    exact within
  | took k room shared =>
    subst shared
    exact setUsed_within within (Nat.succ_le_of_lt room)
  | gave k shared =>
    subst shared
    exact setUsed_within within ((Nat.sub_le _ _).trans (within k))

theorem append_cap (within : s.Within) (size k : Nat) : s.used k ≤ (s.caps ++ [size]).getD k 0 := by
  have known := within k
  unfold Shared.capOf at known
  by_cases inside : k < s.caps.length
  · simpa [List.getElem?_append_left inside] using known
  · have free : s.caps.getD k 0 = 0 := by
      simp [List.getElem?_eq_none (Nat.le_of_not_lt inside)]
    omega

theorem outer_within {b : Outer} (within : s.Within) (moved : outer ios s b = some t) : t.Within := by
  cases b with
  | applyCaptureConfig k cfg =>
    obtain ⟨_, same⟩ := guarded moved
    subst same
    unfold Shared.applyCaptureConfig
    split
    · exact within
    · exact append_cap within _
  | _ =>
    cases moved
    exact within

end Slots

section Runs
variable {p q : Pool Shared Flow n} {as : List (Action Own Outer n)}

theorem sound_linked : Linked (moves u ios clients) fun i _ f => f.Sound u (clients i) where
  own _ _ _ _ _ _ moved sound := own_sound sound moved
  frame _ _ _ _ _ _ _ _ _ _ sound := sound
  outer _ _ _ _ _ sound := sound

structure Consistent (u : CaseTables) (clients : Fin n → Client) (p : Pool Shared Flow n) : Prop where
  flows : ∀ i, (p.locals i).Sound u (clients i)
  shares : p.shared.share = p.total Flow.share
  within : p.shared.Within

theorem consistent_start (u : CaseTables) (clients : Fin n → Client) : Consistent u clients (start n) where
  flows i := by constructor <;> simp [start, Flow.Holds]
  shares := by
    ext k <;> simp [start, Pool.total, Shared.share, Flow.share]
  within k := Nat.zero_le _

theorem consistent_step {a : Action Own Outer n} (held : Consistent u clients p)
    (taken : step (moves u ios clients) p a = some q) : Consistent u clients q where
  flows := sound_linked.step taken held.flows
  shares := share_balanced.step taken held.flows held.shares
  within := by
    cases a with
    | own i a =>
      obtain ⟨s, f, moved, rfl⟩ := step_own taken
      exact (own_effect moved).within held.within
    | outer b =>
      obtain ⟨s, moved, rfl⟩ := step_outer taken
      exact outer_within held.within moved

theorem consistent_run (reached : run (step (moves u ios clients)) (start n) as = some p) : Consistent u clients p :=
  run_invariant (consistent_start u clients) (fun _ _ _ held taken => consistent_step held taken) reached

/-- The semaphores and the environments count exactly the connections that are intercepted. `mitmLive` stays
    below the number of connections, so that its 32 bits do not overflow. -/
structure Accounted (p : Pool Shared Flow n) : Prop where
  slots : ∀ k, (p.shared.used k : Int) = p.total fun f => one f.held k
  within : ∀ k, p.shared.used k ≤ p.shared.capOf k
  live : ∀ k, (p.shared.envs k).mitmLive = p.total fun f => one f.live k
  small : ∀ k, 0 ≤ (p.shared.envs k).mitmLive ∧ (p.shared.envs k).mitmLive ≤ n
  ended : ∀ i, (p.locals i).phase = .ended → (p.locals i).held = none ∧ (p.locals i).live = none ∧
    (p.locals i).upstream ≠ .opened ∧ (p.locals i).relay ≠ .opened

/-- Whatever configurations come and go, each semaphore has as many slots taken as connections
    hold one of it, the environments count the connections they should, and a connection that has
    ended holds nothing and has closed what it opened. -/
theorem slots_accounted (reached : run (step (moves u ios clients)) (start n) as = some p) : Accounted p := by
  have held := consistent_run reached
  have shares := held.shares
  have live : ∀ k, (p.shared.envs k).mitmLive = p.total fun f => one f.live k := by
    intro k
    have := congrFun (congrArg Prod.snd shares) k
    simpa [Pool.total, Prod.snd_sum, Shared.share, Flow.share] using this
  constructor
  · intro k
    have := congrFun (congrArg Prod.fst shares) k
    simpa [Pool.total, Prod.fst_sum, Shared.share, Flow.share] using this
  · exact held.within
  · exact live
  · intro k
    rw [live k]
    exact sum_bounds fun i => one_unit _ k
  · intro i ended
    have sound := held.flows i
    have holds := sound.holds
    simp only [Flow.Holds, ended] at holds
    refine ⟨holds.1, holds.2, ?_, ?_⟩
    · intro opened
      simpa [ended] using sound.upstream opened
    · intro opened
      simpa [ended] using sound.relay opened

def plainClient : Client := ⟨⟨text "a", [text "h2"]⟩, ⟨text "1.2.3.4", 443⟩⟩

def namedHost : Config := ⟨some ⟨[⟨false, text "a", -1⟩], [], false⟩, true, true, true⟩

def intercepted (i j : Fin n) : List (Action Own Outer n) :=
  [.outer (.resetCaptureTunnelState (text "ssh")), .outer (.applyCaptureConfig 0 namedHost), .own i .load,
    .own i .enter, .own j .load, .own j .enter, .own i (.stage .screen), .own i (.stage .takeSlot),
    .own i (.stage .countLive), .own i (.stage (.dial true)), .own i (.stage (.upstreamTLS (text "h2"))),
    .own i (.stage (.mint true))]

theorem intercepted_accounted :
    ∃ p, run (step (moves latinTables true fun _ => plainClient)) (start 2) (intercepted 0 1) = some p ∧
      p.shared.used 0 = 1 ∧ Accounted p := by
  have reached : run (step (moves latinTables true fun _ => plainClient)) (start 2) (intercepted 0 1) = some _ := rfl
  exact ⟨_, reached, rfl, slots_accounted reached⟩

theorem interception_screened (reached : run (step (moves u ios clients)) (start n) as = some p) {i : Fin n}
    (intercepting : (p.locals i).phase.intercepting = true) :
    ∃ before after q, as = before ++ .own i (.stage .screen) :: after ∧
      run (step (moves u ios clients)) (start n) before = some q ∧ (p.locals i).Passed u (clients i) q.shared := by
  induction as using List.reverseRecOn generalizing p with
  | nil =>
    cases reached
    cases intercepting
  | append_singleton as a ih =>
    obtain ⟨m, first, last⟩ := run_concat reached
    -- a screening earlier in the run is still the one of a flow that this step leaves as it was
    have earlier (f : Flow) (same : f.cs = (m.locals i).cs ∧ f.env = (m.locals i).env)
        (inside : (m.locals i).phase.intercepting = true) :
        ∃ before after q, as ++ [a] = before ++ .own i (.stage .screen) :: after ∧
          run (step (moves u ios clients)) (start n) before = some q ∧ f.Passed u (clients i) q.shared := by
      obtain ⟨before, after, q, split, seen, cs, k, state, env, screened⟩ := ih first inside
      exact ⟨before, after ++ [a], q, by simp [split], seen, cs, k, same.1.trans state, same.2.trans env, screened⟩
    cases a with
    | outer b =>
      obtain ⟨s, moved, rfl⟩ := step_outer last
      exact earlier _ ⟨rfl, rfl⟩ intercepting
    | own j a =>
      obtain ⟨s, f, moved, rfl⟩ := step_own last
      rw [after_locals] at intercepting ⊢
      split at intercepting
      · rename_i same
        subst same
        rw [if_pos rfl]
        rcases own_begins moved intercepting with ⟨inside, same⟩ | ⟨rfl, passed⟩
        · exact earlier f same inside
        · exact ⟨as, [], m, rfl, first, passed⟩
      · rename_i other
        rw [if_neg other]
        exact earlier _ ⟨rfl, rfl⟩ intercepting

/-- The flow passed its screening where this was shared: the rules of its configuration named it, its environment
    did not bypass it and there was a CA. It is offered only a protocol that it offered itself and that the
    configuration allows. -/
def Flow.Lawful (u : CaseTables) (c : Client) (seen : Shared) (f : Flow) : Prop :=
  f.Passed u c seen ∧ ∀ cs, f.cs = some cs → ∀ proto ∈ f.nextProtos,
    proto ∈ c.hello.supportedProtos ∧ (proto = text "http/1.1" ∨ proto = text "h2" ∧ cs.enableH2 = true)

theorem interception_lawful (reached : run (step (moves u ios clients)) (start n) as = some p) (i : Fin n)
    (intercepting : (p.locals i).phase.intercepting = true) :
    ∃ before after q, as = before ++ .own i (.stage .screen) :: after ∧
      run (step (moves u ios clients)) (start n) before = some q ∧
      (p.locals i).Lawful u (clients i) q.shared := by
  obtain ⟨before, after, q, split, seen, passed⟩ := interception_screened reached intercepting
  refine ⟨before, after, q, split, seen, passed, ?_⟩
  intro cs state proto listed
  obtain ⟨other, same, allowed⟩ := ((consistent_run reached).flows i).nextProtos proto listed
  obtain rfl := Option.some.inj (state.symm.trans same)
  simpa [filterALPN] using allowed

theorem intercepted_lawful :
    ∃ p, run (step (moves latinTables true fun _ => plainClient)) (start 2) (intercepted 0 1) = some p ∧
      (p.locals 0).nextProtos = [text "h2"] ∧
      ∃ before after q, intercepted 0 1 = before ++ .own 0 (.stage .screen) :: after ∧
        run (step (moves latinTables true fun _ => plainClient)) (start 2) before = some q ∧
        (p.locals 0).Lawful latinTables plainClient q.shared := by
  have reached : run (step (moves latinTables true fun _ => plainClient)) (start 2) (intercepted 0 1) = some _ := rfl
  exact ⟨_, reached, rfl, interception_lawful reached 0 rfl⟩

end Runs

section Bypassing
variable {p q : Pool Shared Flow n} {as : List (Action Own Outer n)} {name : Bytes}

theorem onEnv_bypass {j : Nat} {g : CaptureEnv → CaptureEnv} (grows : ∀ e, e.bypass ⊆ (g e).bypass)
    (listed : name ∈ (s.envs k).bypass) : name ∈ ((s.onEnv j g).envs k).bypass := by
  by_cases same : k = j
  · subst same
    simpa [Shared.onEnv] using grows _ listed
  · simpa [Shared.onEnv, same] using listed

theorem Effect.bypass (effect : Effect s t) (listed : name ∈ (s.envs k).bypass) : name ∈ (t.envs k).bypass := by
  cases effect with
  | same shared | took j room shared | gave j shared =>
    subst shared
    exact listed
  | noted j g shared grows =>
    subst shared
    exact onEnv_bypass grows listed

theorem outer_bypass {b : Outer} (moved : outer ios s b = some t)
    (listed : name ∈ (s.envs k).bypass) : name ∈ (t.envs k).bypass := by
  cases b with
  | resetCaptureTunnelState transport =>
    cases moved
    exact onEnv_bypass (g := fun e => { e with transport := transport }) (fun e => List.Subset.refl e.bypass) listed
  | applyCaptureConfig j cfg =>
    obtain ⟨_, same⟩ := guarded moved
    subst same
    rw [(configure_used s j cfg).2]
    exact listed
  | closeCapture =>
    cases moved
    exact listed

theorem own_spared {a : Own} (moved : own u clients i s f a = some (t, h))
    (listed : hostName u (clients i).hello (clients i).dst ∈ (s.envs k).bypass)
    (spared : f.env = some k → f.phase.intercepting = false) : h.env = some k → h.phase.intercepting = false := by
  intro inside
  by_contra intercepted
  rcases own_begins moved (Bool.not_eq_false _ ▸ intercepted) with ⟨before, _, env⟩ | ⟨_, cs, j, _, env, screened⟩
  · rw [spared (env.symm.trans inside)] at before
    cases before
  · obtain rfl := Option.some.inj (env.symm.trans inside)
    have free := screened.free
    simp [listed] at free

/-- Once a host is bypassed it stays so, and no connection to it that has not passed its screening
    ever will. -/
theorem bypass_lasts (reached : run (step (moves u ios clients)) p as = some q) (i : Fin n) (k : Nat)
    (listed : hostName u (clients i).hello (clients i).dst ∈ (p.shared.envs k).bypass)
    (spared : (p.locals i).phase.intercepting = false) :
    hostName u (clients i).hello (clients i).dst ∈ (q.shared.envs k).bypass ∧
      ((q.locals i).env = some k → (q.locals i).phase.intercepting = false) := by
  let Spared (j : Fin n) (s : Shared) (f : Flow) : Prop :=
    hostName u (clients i).hello (clients i).dst ∈ (s.envs k).bypass ∧
      (j = i → f.env = some k → f.phase.intercepting = false)
  have linked : Linked (moves u ios clients) Spared := by
    constructor
    · intro j s f a t h moved held
      refine ⟨(own_effect moved).bypass held.1, ?_⟩
      intro same
      subst same
      exact own_spared moved held.1 (held.2 rfl)
    · intro j l s f a t h g moved _ held
      exact ⟨(own_effect moved).bypass held.1, held.2⟩
    · intro s b t l moved held j
      exact ⟨outer_bypass moved (held j).1, (held j).2⟩
  have both : ∀ j, Spared j q.shared (q.locals j) := by
    apply run_invariant (I := fun p => ∀ j, Spared j p.shared (p.locals j)) _
      (fun _ _ _ held taken => linked.step taken held) reached
    intro j
    refine ⟨listed, ?_⟩
    intro same _
    subst same
    exact spared
  exact ⟨(both i).1, (both i).2 rfl⟩

def rejected (i j : Fin n) : Pool Shared Flow n :=
  (run (step (moves latinTables true fun _ => plainClient)) (start n)
    (intercepted i j ++ [.own i (.stage (.handshakeFails true)), .own i (.stage .bypass)])).getD (start n)

theorem rejected_spares :
    ∃ q : Pool Shared Flow 2,
      run (step (moves latinTables true fun _ => plainClient)) (rejected 0 1) [.own 1 (.stage .screen)] = some q ∧
      (q.locals 1).pass = some .bypassed ∧
      (hostName latinTables plainClient.hello plainClient.dst ∈ (q.shared.envs 0).bypass ∧
        ((q.locals 1).env = some 0 → (q.locals 1).phase.intercepting = false)) := by
  have reached : run (step (moves latinTables true fun _ => plainClient)) (rejected (0 : Fin 2) 1)
    [.own 1 (.stage .screen)] = some _ := rfl
  exact ⟨_, reached, rfl, bypass_lasts reached 1 0 (by decide) rfl⟩

end Bypassing

end MitmFlows
