import RootShell.HostRules
import RootShell.RecorderSystem

/-!
The capture state of the tunnel (vpntunnel/capture.go): the snapshot swapped on every
configuration, the tunnel's environment with its blocking flag, and the recorders, which
a snapshot shares and which may stop by themselves.
-/
namespace CaptureStates
open ByteLines ByteText HostRules RecorderQueue Interleaving

def defaultMaxBodyBytes : Int := 10 * 2 ^ 20

def defaultMaxSessionBytes : Int := 500 * 2 ^ 20

def caEndpointIP : Bytes := text "10.0.0.1"

structure CaptureConfig where
  enabled : Bool
  sessionID : Bytes
  segmentNonce : Bytes
  spoolDir : Bytes
  mitmHosts : List Bytes
  caCertPEM : Bytes
  caKeyPEM : Bytes
  caProfileB64 : Bytes
  maxBodyBytes : Int
  maxSessionBytes : Int

/-- A recorder by what the rest of the tunnel sees of it; `final` is the event that close
    announced. -/
structure Rec where
  sessionID : Bytes
  nonce : Bytes
  maxBody : Int
  maxSession : Int
  active : Bool
  halted : Bool
  closing : Bool
  stopReason : Bytes
  final : Option (StopKind × Bytes)

structure CaptureState (M : Type) where
  cfg : CaptureConfig
  hosts : Option HostMatcher
  minter : Option M
  recorder : Option Nat
  caProfile : Option Bytes

structure CaptureEnv where
  blocking : Bool

structure State (M : Type) where
  recs : List Rec
  cur : Option (CaptureState M)
  env : Option CaptureEnv

structure Libraries (M : Type) where
  tables : CaseTables
  decodeString : Bytes → Bytes
  newCertMinter : Bytes → Bytes → Option M
  caPEM : M → Bytes

inductive Failure where
  | config (err : Bytes)
  | notRunning
  | spool (err : Bytes)
  deriving DecidableEq

def Failure.message : Failure → Bytes
  | .config err => text "capture config: " ++ err
  | .notRunning => text "capture config: tunnel not running"
  | .spool err => text "capture spool: " ++ err

section Recorders

def Rec.autoStop (reason : Bytes) (r : Rec) : Rec :=
  if r.halted then r else { r with halted := true, active := false, stopReason := reason }

def Rec.close (kind : StopKind) (reason : Bytes) (r : Rec) : Rec :=
  { r with
    final := if r.active then some (kind, reason) else r.final
    active := false
    closing := true }

def Rec.limit (maxBody maxSession : Int) (r : Rec) : Rec := { r with maxBody := maxBody, maxSession := maxSession }

def newRecorder (cfg : CaptureConfig) : Rec where
  sessionID := cfg.sessionID
  nonce := cfg.segmentNonce
  maxBody := cfg.maxBodyBytes
  maxSession := cfg.maxSessionBytes
  active := true
  halted := false
  closing := false
  stopReason := []
  final := none

def Rec.Shows (r : Rec) (s : Spool) : Prop := s.active = r.active ∧ s.halted = r.halted ∧ s.closing = r.closing

theorem recorder_shows {e : RecorderSystem.Session} {s t : RecorderSystem.Recorder} {act : RecorderSystem.Action}
    {r : Rec} (moved : RecorderSystem.step e s act = some t) (shown : r.Shows s.spool) (lowers : act ≠ .deactivate)
    (raises : act ≠ .raise) (reason : Bytes) : r.Shows t.spool ∨ (r.autoStop reason).Shows t.spool := by
  obtain ⟨active, halted, closing⟩ := shown
  cases RecorderSystem.step_flags moved with
  | same flags => exact Or.inl ⟨flags.1.trans active, flags.2.1.trans halted, flags.2.2.trans closing⟩
  | stopped running flags =>
    right
    rw [Rec.autoStop, if_neg (by simp [← halted, running])]
    exact ⟨flags.1, flags.2.1, flags.2.2.trans closing⟩
  | deactivated => exact absurd rfl lowers
  | raised => exact absurd rfl raises

theorem closed_shows {e : RecorderSystem.Session} {s m t : RecorderSystem.Recorder} {r : Rec}
    (lowered : RecorderSystem.step e s .deactivate = some m) (raised : RecorderSystem.step e m .raise = some t)
    (shown : r.Shows s.spool) (kind : StopKind) (reason : Bytes) : (r.close kind reason).Shows t.spool := by
  cases RecorderSystem.step_move lowered
  cases RecorderSystem.step_move raised
  exact ⟨rfl, shown.2.1, rfl⟩

end Recorders

section Operations
variable {M : Type} (x : Libraries M)

def State.onRec (s : State M) (recorder : Option Nat) (f : Rec → Rec) : State M :=
  { s with recs := recorder.elim s.recs fun i => s.recs.modify i f }

def State.look (s : State M) (recorder : Option Nat) : Option Rec := recorder.bind (s.recs[·]?)

def State.isActive (s : State M) (recorder : Option Nat) : Bool := (s.look recorder).any Rec.active

def State.recording (s : State M) : Bool := s.cur.any fun cs => cs.cfg.enabled && s.isActive cs.recorder

def State.captureBlocking (s : State M) : Bool := s.env.any CaptureEnv.blocking

def State.resetCaptureTunnelState (s : State M) : State M := { s with env := some ⟨false⟩ }

def CaptureConfig.withDefaults (cfg : CaptureConfig) : CaptureConfig :=
  { cfg with
    maxBodyBytes := if cfg.maxBodyBytes ≤ 0 then defaultMaxBodyBytes else cfg.maxBodyBytes
    maxSessionBytes := if cfg.maxSessionBytes ≤ 0 then defaultMaxSessionBytes else cfg.maxSessionBytes }

def minterFor (prev : Option (CaptureState M)) (cfg : CaptureConfig) : Option M :=
  if cfg.caCertPEM = [] then none
  else
    match (prev.bind CaptureState.minter).filter fun m => x.caPEM m = cfg.caCertPEM with
    | some m => some m
    | none => x.newCertMinter cfg.caCertPEM cfg.caKeyPEM

def snapshot (prev : Option (CaptureState M)) (cfg : CaptureConfig) : CaptureState M where
  cfg := cfg
  hosts := some (compileHostRules x.tables cfg.mitmHosts)
  minter := minterFor x prev cfg
  recorder := none
  caProfile := if cfg.caProfileB64 = [] then none else some (x.decodeString cfg.caProfileB64)

def CaptureState.disabled (cs : CaptureState M) : CaptureState M := { cs with cfg := { cs.cfg with enabled := false } }

def State.sameSegment (s : State M) (recorder : Option Nat) (cfg : CaptureConfig) : Bool :=
  (s.look recorder).any fun r => r.sessionID = cfg.sessionID && r.nonce = cfg.segmentNonce

def State.store (s : State M) (next : CaptureState M) : State M :=
  { s with cur := some next, env := s.env.map fun _ => ⟨next.cfg.enabled⟩ }

/-- `raw` is the decoded text or the decoder's error, `spool` the error of making the
    spool directories. -/
def State.applyCaptureConfig (s : State M) (raw : Except Bytes CaptureConfig) (spool : Option Bytes) :
    State M × Except Failure Unit :=
  match raw with
  | .error err => (s, .error (.config err))
  | .ok cfg =>
    if s.env.isNone then (s, .error .notRunning)
    else
      let cfg := cfg.withDefaults
      let next := snapshot x s.cur cfg
      let current := s.cur.bind CaptureState.recorder
      if cfg.enabled ∧ cfg.sessionID ≠ [] ∧ cfg.spoolDir ≠ [] then
        if s.sameSegment current cfg then
          ((s.onRec current (Rec.limit cfg.maxBodyBytes cfg.maxSessionBytes)).store
            { next with recorder := current }, .ok ())
        else
          let s := s.onRec current (Rec.close .segmentEnd (text "reconfigured"))
          match spool with
          | some err => (s.store next.disabled, .error (.spool err))
          | none =>
            let added : State M := { s with recs := s.recs ++ [newRecorder cfg] }
            (added.store { next with recorder := some s.recs.length }, .ok ())
      else ((s.onRec current (Rec.close .stop (text "user"))).store next.disabled, .ok ())

def State.closeCapture (s : State M) (reason : Bytes) (final : Bool) : State M :=
  match s.cur with
  | none => if final then s else { s with env := none }
  | some cs =>
    let s := s.onRec cs.recorder (Rec.close (if final then .stop else .segmentEnd) reason)
    { s with
      cur := if final then some { cs.disabled with recorder := none } else none
      env := if final then s.env.map fun _ => ⟨false⟩ else none }

def State.captureStop (s : State M) : State M := s.closeCapture (text "user") true

inductive Op where
  | reset
  | configure (raw : Except Bytes CaptureConfig) (spool : Option Bytes)
  | captureStop
  | closeCapture (reason : Bytes) (final : Bool)
  | autoStop (i : Nat) (reason : Bytes)

def step (s : State M) : Op → Option (State M)
  | .reset => some s.resetCaptureTunnelState
  | .configure raw spool => some (s.applyCaptureConfig x raw spool).1
  | .captureStop => some s.captureStop
  | .closeCapture reason final => some (s.closeCapture reason final)
  | .autoStop i reason => if i < s.recs.length then some (s.onRec (some i) (Rec.autoStop reason)) else none

def start : State M := ⟨[], none, none⟩

def State.shouldPeek (s : State M) (cs : CaptureState M) (dstIP : Bytes) (port : Int) : Bool :=
  if dstIP = caEndpointIP ∧ port = 80 then cs.caProfile.isSome || cs.minter.isSome
  else if cs.cfg.enabled = false ∨ s.isActive cs.recorder = false then false
  else if port = 80 ∨ port = 443 ∨ port = 8080 ∨ port = 8443 then true
  else hasExplicitPort cs.hosts port

end Operations

section Peeking

def plainLibraries : Libraries Unit := ⟨latinTables, id, fun _ _ => none, fun _ => []⟩

def plainConfig : CaptureConfig := ⟨true, text "s", text "n", text "/spool", [text "*"], [], [], [], 0, 1⟩

theorem shouldPeek_recording {M : Type} {s : State M} {cs : CaptureState M} {port : Int}
    (enabled : cs.cfg.enabled = true) (active : s.isActive cs.recorder = true)
    (worth : port = 443 ∨ hasExplicitPort cs.hosts port = true) (dstIP : Bytes) :
    s.shouldPeek cs dstIP port = true ↔
      ¬ (dstIP = caEndpointIP ∧ port = 80 ∧ cs.caProfile = none ∧ cs.minter = none) := by
  unfold State.shouldPeek
  by_cases endpoint : dstIP = caEndpointIP ∧ port = 80
  · rw [if_pos endpoint]
    simp only [endpoint.1, endpoint.2, true_and, Bool.or_eq_true, not_and_or, ← ne_eq, Option.isSome_iff_ne_none]
  · rw [if_neg endpoint, if_neg (by simp [enabled, active])]
    have free : ¬ (dstIP = caEndpointIP ∧ port = 80 ∧ cs.caProfile = none ∧ cs.minter = none) :=
      fun busy => endpoint ⟨busy.1, busy.2.1⟩
    simp only [free, not_false_eq_true, iff_true]
    split
    · rfl
    · rename_i unlisted
      exact worth.resolve_left fun default => unlisted (Or.inr (Or.inl default))

/-- A flow that the entries intercept is on the default port or on one that an entry names,
    and is peeked at while recording, unless it asks for a CA that there is none of. -/
theorem intercepted_flow_peeked (u : CaseTables) (entries : List Bytes) (port : Int) :
    (∀ host, isMatch u (some (compileHostRules u entries)) host port = true →
      (port = 443 ∨ hasExplicitPort (some (compileHostRules u entries)) port = true) ∧
        ∀ (M : Type) (s : State M) (cs : CaptureState M) (dstIP : Bytes),
          cs.hosts = some (compileHostRules u entries) → cs.cfg.enabled = true → s.isActive cs.recorder = true →
            (s.shouldPeek cs dstIP port = true ↔
              ¬ (dstIP = caEndpointIP ∧ port = 80 ∧ cs.caProfile = none ∧ cs.minter = none))) ∧
      (hasExplicitPort (some (compileHostRules u entries)) port = true →
        ∃ raw ∈ entries, Names u raw port ∨ Names u raw 0) := by
  refine ⟨fun host found => ?_, explicit_named⟩
  have worth := match_explicit found
  refine ⟨worth, fun M s cs dstIP hosts enabled active => ?_⟩
  exact shouldPeek_recording enabled active (hosts ▸ worth) dstIP

/-- The CA's address on port 80 is never peeked at without a CA, whatever the entries say. -/
theorem ca_address_unpeeked :
    ∃ (s : State Unit) (cs : CaptureState Unit) (entries : List Bytes),
      cs.hosts = some (compileHostRules latinTables entries) ∧ cs.cfg.enabled = true ∧
      s.isActive cs.recorder = true ∧ isMatch latinTables cs.hosts caEndpointIP 80 = true ∧
      s.shouldPeek cs caEndpointIP 80 = false :=
  ⟨⟨[newRecorder plainConfig], none, none⟩,
    ⟨plainConfig, some (compileHostRules latinTables [text "10.0.0.1:80"]), none, some 0, none⟩,
    [text "10.0.0.1:80"], rfl, rfl, rfl, by decide, by decide⟩

theorem named_port_peeked :
    ∃ (s : State Unit) (cs : CaptureState Unit),
      isMatch latinTables cs.hosts (text "a.example.com") 8444 = true ∧
      s.shouldPeek cs (text "192.0.2.1") 8444 = true := by
  have found : isMatch latinTables (some (compileHostRules latinTables [text "*.example.com:8444"]))
      (text "a.example.com") 8444 = true := by decide
  refine ⟨⟨[newRecorder plainConfig], none, none⟩,
    ⟨plainConfig, some (compileHostRules latinTables [text "*.example.com:8444"]), none, some 0, none⟩, found, ?_⟩
  obtain ⟨_, peeked⟩ := (intercepted_flow_peeked latinTables [text "*.example.com:8444"] 8444).1 _ found
  exact (peeked Unit _ _ (text "192.0.2.1") rfl rfl rfl).2 (by decide)

end Peeking

section Blocking
variable {M : Type} {x : Libraries M} {s t : State M} {op : Op}

def State.enabled (s : State M) : Bool := s.cur.any fun cs => cs.cfg.enabled

def State.autoStopped (s : State M) : Bool := s.cur.any fun cs => cs.cfg.enabled && (s.look cs.recorder).any Rec.halted

def Orderly (s : State M) (op : Op) : Prop := op = .reset → s.enabled = false

def Rec.Open (r : Rec) : Prop := r.active = !r.halted

def State.Holds (s : State M) (recorder : Option Nat) : Prop :=
  ∀ i, recorder = some i → ∃ r, s.recs[i]? = some r ∧ r.Open

structure Aligned (s : State M) : Prop where
  recorded : ∀ cs, s.cur = some cs → cs.cfg.enabled = true → cs.recorder ≠ none
  holds : ∀ cs, s.cur = some cs → s.Holds cs.recorder
  blocking : s.captureBlocking = s.enabled

theorem autoStop_open {r : Rec} (live : r.Open) (reason : Bytes) : (r.autoStop reason).Open := by
  unfold Rec.autoStop
  split
  · exact live
  · exact rfl

theorem limit_open {r : Rec} (live : r.Open) (maxBody maxSession : Int) : (r.limit maxBody maxSession).Open := live

theorem onRec_holds {recorder : Option Nat} (holds : s.Holds recorder) {f : Rec → Rec}
    (keeps : ∀ r : Rec, r.Open → (f r).Open) (other : Option Nat) : (s.onRec other f).Holds recorder := by
  intro i chosen
  obtain ⟨r, found, live⟩ := holds i chosen
  cases other with
  | none => exact ⟨r, found, live⟩
  | some j =>
    simp only [State.onRec, Option.elim_some, List.getElem?_modify, found]
    by_cases same : j = i
    · exact ⟨f r, by simp [same], keeps r live⟩
    · exact ⟨r, by simp [same], live⟩

theorem store_blocking {next : CaptureState M} (running : s.env.isNone = false) :
    (s.store next).captureBlocking = (s.store next).enabled := by
  obtain ⟨env, found⟩ := Option.isSome_iff_exists.1 (Option.isNone_eq_false_iff.1 running)
  simp [State.store, State.captureBlocking, State.enabled, found]

theorem store_aligned {next : CaptureState M} (running : s.env.isNone = false) (holds : s.Holds next.recorder)
    (recorded : next.cfg.enabled = true → next.recorder ≠ none) : Aligned (s.store next) := by
  refine ⟨fun cs found enabled => ?_, fun cs found => ?_, store_blocking running⟩
  · cases found
    exact recorded enabled
  · cases found
    exact holds

theorem apply_aligned (aligned : Aligned s) (raw : Except Bytes CaptureConfig) (spool : Option Bytes) :
    Aligned (s.applyCaptureConfig x raw spool).1 := by
  unfold State.applyCaptureConfig
  cases raw with
  | error err => exact aligned
  | ok cfg =>
    dsimp only
    split
    · exact aligned
    · rename_i present
      have running : s.env.isNone = false := Bool.eq_false_iff.2 present
      have none_held : ∀ t : State M, t.Holds none := fun t i chosen => by cases chosen
      split
      · split
        · rename_i same
          have current : s.Holds (s.cur.bind CaptureState.recorder) := by
            cases found : s.cur with
            | none => exact none_held s
            | some cs => exact aligned.holds cs found
          refine store_aligned running (onRec_holds current (fun r live => limit_open live _ _) _) fun _ absent => ?_
          dsimp only at absent
          simp [State.sameSegment, State.look, absent] at same
        · split
          · exact store_aligned running (none_held _) fun enabled => by cases enabled
          · refine store_aligned running (fun i chosen => ?_) fun _ => Option.some_ne_none _
            cases chosen
            exact ⟨newRecorder cfg.withDefaults, by simp, rfl⟩
      · exact store_aligned running (none_held _) fun enabled => by cases enabled

theorem closeCapture_aligned (aligned : Aligned s) (reason : Bytes) (final : Bool) :
    Aligned (s.closeCapture reason final) := by
  unfold State.closeCapture
  split
  · rename_i idle
    cases final with
    | true => exact aligned
    | false =>
      refine ⟨fun cs found => ?_, fun cs found => ?_, ?_⟩
      · cases idle.symm.trans found
      · cases idle.symm.trans found
      · simp [State.captureBlocking, State.enabled, idle]
  · rename_i cs found
    cases final with
    | true =>
      refine ⟨fun cs found enabled => ?_, fun cs found i chosen => ?_, ?_⟩
      · cases found
        cases enabled
      · cases found
        cases chosen
      · cases present : s.env with
        | none => simp [State.captureBlocking, State.enabled, State.onRec, CaptureState.disabled, present]
        | some env => simp [State.captureBlocking, State.enabled, State.onRec, CaptureState.disabled, present]
    | false =>
      refine ⟨fun cs found => ?_, fun cs found => ?_, rfl⟩
      · cases found
      · cases found

theorem step_aligned (aligned : Aligned s) (orderly : Orderly s op) (taken : step x s op = some t) : Aligned t := by
  cases op with
  | reset =>
    cases taken
    refine ⟨aligned.recorded, aligned.holds, ?_⟩
    exact (orderly rfl).symm
  | configure raw spool =>
    cases taken
    exact apply_aligned aligned raw spool
  | captureStop =>
    cases taken
    exact closeCapture_aligned aligned _ _
  | closeCapture reason final =>
    cases taken
    exact closeCapture_aligned aligned reason final
  | autoStop i reason =>
    obtain ⟨_, rfl⟩ := guarded taken
    refine ⟨aligned.recorded, fun cs found => ?_, aligned.blocking⟩
    exact onRec_holds (aligned.holds cs found) (fun r live => autoStop_open live reason) _

theorem aligned_agree (aligned : Aligned s) : s.captureBlocking = s.recording ↔ s.autoStopped = false := by
  rw [aligned.blocking]
  cases found : s.cur with
  | none => simp [State.enabled, State.recording, State.autoStopped, found]
  | some cs =>
    cases enabled : cs.cfg.enabled with
    | false => simp [State.enabled, State.recording, State.autoStopped, found, enabled]
    | true =>
      obtain ⟨i, chosen⟩ := Option.ne_none_iff_exists'.1 (aligned.recorded cs found enabled)
      obtain ⟨r, here, live⟩ := aligned.holds cs found i chosen
      simp [State.enabled, State.recording, State.autoStopped, State.isActive, State.look, found, enabled, chosen,
        here, live.symm]

theorem run_aligned {ops : List Op} (along : Along (step x) Orderly start ops)
    (reached : run (step x) start ops = some s) : Aligned s := by
  refine run_induct (P := fun _ t => Aligned t) ⟨?_, ?_, rfl⟩ ?_ along reached
  · intro cs found
    cases found
  · intro cs found
    cases found
  · intro _ m op t _ aligned orderly taken
    exact step_aligned aligned orderly taken

/-- Blocking follows recording exactly until the current recorder stops by itself: nothing
    takes the flag back then, and the same segment configured again raises it again. -/
theorem blocking_follows_recording (x : Libraries M) (ops : List Op) (s : State M)
    (along : Along (step x) Orderly start ops) (reached : run (step x) start ops = some s) :
    s.captureBlocking = s.recording ↔ s.autoStopped = false :=
  aligned_agree (run_aligned along reached)

theorem plain_blocking_follows :
    ∃ s : State Unit, run (step plainLibraries) start [Op.reset, .configure (.ok plainConfig) none] = some s ∧
      s.captureBlocking = true ∧ s.captureBlocking = s.recording := by
  refine ⟨_, rfl, rfl, ?_⟩
  exact (blocking_follows_recording plainLibraries [Op.reset, .configure (.ok plainConfig) none] _
    ⟨fun _ => rfl, fun t _ => ⟨nofun, fun _ _ => trivial⟩⟩ rfl).2 rfl

/-- A recorder that reaches its size limit leaves QUIC and ECH blocked. -/
theorem blocking_outlives_recording :
    ∃ s : State Unit, run (step plainLibraries) start
        [Op.reset, .configure (.ok plainConfig) none, .autoStop 0 (text "sizeLimit")] = some s ∧
      s.captureBlocking = true ∧ s.recording = false :=
  ⟨_, rfl, rfl, rfl⟩

end Blocking

end CaptureStates
