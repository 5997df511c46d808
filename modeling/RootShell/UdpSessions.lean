import RootShell.ByteLines
import RootShell.Interleaving
import RootShell.KeyedTables
import Mathlib.Logic.Function.Basic

/-!
The sessions of a local UDP forward. A session is filed under the address of its client;
a packet, a timeout and the end of its consumer may all take it out again, the last by
that address alone.
-/
namespace UdpSessions
open ByteLines Interleaving KeyedTables
universe u
variable {K : Type u} {n : Nat} {i : Fin n}

inductive Consumer where
  | unborn
  | consuming
  | returned
  | leaving
  | exited
  deriving DecidableEq

def Consumer.running : Consumer → Bool
  | consuming | returned | leaving => true
  | _ => false

structure Forwarder (K : Type u) (n : Nat) where
  consumers : Fin n → Consumer
  isOpen : Fin n → Bool
  lastActive : Fin n → Int
  fwdSessions : Table K (Fin n)

def start (K : Type u) (n : Nat) : Forwarder K n where
  consumers _ := .unborn
  isOpen _ := false
  lastActive _ := 0
  fwdSessions := ∅

/-- A packet names the session that a dial would make, if one succeeds. -/
inductive Action (K : Type u) (n : Nat) where
  | handlePacket (clientKey : K) (dialed : Option (Fin n)) (written : Bool) (now : Int)
  | receive (i : Fin n) (now : Int)
  | consumed (i : Fin n)
  | closeConn (i : Fin n)
  | exit (i : Fin n)
  | cleanupTimeout (fwdExpireBefore : Int)

namespace Forwarder
variable (s : Forwarder K n)

def goto (i : Fin n) (next : Consumer) : Forwarder K n := { s with consumers := Function.update s.consumers i next }

def touch (i : Fin n) (now : Int) : Forwarder K n := { s with lastActive := Function.update s.lastActive i now }

def connect (i : Fin n) : Forwarder K n := { s with isOpen := Function.update s.isOpen i true }

def shut (i : Fin n) : Forwarder K n := { s with isOpen := Function.update s.isOpen i false }

variable [DecidableEq K]

def entry (key : K) : Option (Fin n) := get (some s.fwdSessions) key

def file (key : K) (i : Fin n) : Forwarder K n := { s with fwdSessions := s.fwdSessions.insert key i }

def drop (key : K) : Forwarder K n := { s with fwdSessions := s.fwdSessions.erase key }

def write (key : K) (i : Fin n) (written : Bool) (now : Int) : Forwarder K n :=
  if written then s.touch i now else ((s.touch i now).shut i).drop key

def dial (key : K) (i : Fin n) (now : Int) : Forwarder K n :=
  (((s.connect i).touch i now).file key i).goto i .consuming

def expire (fwdExpireBefore : Int) (key : K) : Forwarder K n :=
  match s.entry key with
  | some i => if s.lastActive i < fwdExpireBefore then (s.shut i).drop key else s
  | none => s

def cleanupTimeout (fwdExpireBefore : Int) : Forwarder K n :=
  s.fwdSessions.keys.foldl (fun s key => s.expire fwdExpireBefore key) s

end Forwarder

variable [DecidableEq K]

def step (client : Fin n → K) (s : Forwarder K n) : Action K n → Option (Forwarder K n)
  | .handlePacket key dialed written now =>
    match s.entry key with
    | some i => some (s.write key i written now)
    | none =>
      match dialed with
      | none => some s
      | some i =>
        if s.consumers i = .unborn ∧ client i = key then some ((s.dial key i now).write key i written now) else none
  | .receive i now => if s.consumers i = .consuming then some (s.touch i now) else none
  | .consumed i => if s.consumers i = .consuming then some (s.goto i .returned) else none
  | .closeConn i => if s.consumers i = .returned then some ((s.shut i).goto i .leaving) else none
  | .exit i => if s.consumers i = .leaving then some ((s.drop (client i)).goto i .exited) else none
  | .cleanupTimeout fwdExpireBefore => some (s.cleanupTimeout fwdExpireBefore)

@[simp] theorem running_goto {K : Type u} (s : Forwarder K n) (i : Fin n) (next : Consumer) (j : Fin n) :
    ((s.goto i next).consumers j).running = if j = i then next.running else (s.consumers j).running := by
  simp only [Forwarder.goto, Function.update_apply]
  exact apply_ite Consumer.running _ _ _

section Views
variable (s : Forwarder K n)

@[simp] theorem entry_goto (i : Fin n) (next : Consumer) (key : K) : (s.goto i next).entry key = s.entry key := rfl

@[simp] theorem entry_touch (i : Fin n) (now : Int) (key : K) : (s.touch i now).entry key = s.entry key := rfl

@[simp] theorem entry_shut (i : Fin n) (key : K) : (s.shut i).entry key = s.entry key := rfl

@[simp] theorem entry_drop (id key : K) : (s.drop id).entry key = if key = id then none else s.entry key :=
  get_delete (some s.fwdSessions) id key

theorem entry_dial (id : K) (i : Fin n) (now : Int) (key : K) :
    (s.dial id i now).entry key = if key = id then some i else s.entry key := get_insert _ _ _ _

end Views

variable {key : K}

section Tracking
variable {client : Fin n → K} {s t : Forwarder K n} {a : Action K n}

def Allowed (client : Fin n → K) (s : Forwarder K n) : Action K n → Prop
  | .handlePacket key (some _) _ _ => s.entry key = none → ∀ i, client i = key → (s.consumers i).running = false
  | _ => True

def Live (s : Forwarder K n) (i : Fin n) : Prop := s.isOpen i = true ∧ (s.consumers i).running = true

structure Tracked (client : Fin n → K) (s : Forwarder K n) : Prop where
  filed : ∀ key i, s.entry key = some i → client i = key ∧ (s.consumers i).running = true
  live : ∀ i, Live s i → s.entry (client i) = some i
  single : ∀ i j, client i = client j → (s.consumers i).running = true → (s.consumers j).running = true → i = j

theorem tracked_start (client : Fin n → K) : Tracked client (start K n) where
  filed := by simp [start, Forwarder.entry]
  live := by simp [Live, start]
  single := by simp [start, Consumer.running]

theorem Tracked.less (tracked : Tracked client s)
    (consumers : ∀ i, (t.consumers i).running = true → (s.consumers i).running = true)
    (entries : ∀ key i, t.entry key = some i → s.entry key = some i ∧ (t.consumers i).running = true)
    (live : ∀ i, Live t i → Live s i ∧ t.entry (client i) = s.entry (client i)) : Tracked client t where
  filed key i found := ⟨(tracked.filed key i (entries key i found).1).1, (entries key i found).2⟩
  live i here := (live i here).2.trans (tracked.live i (live i here).1)
  single i j same first second := tracked.single i j same (consumers i first) (consumers j second)

theorem Tracked.touch (tracked : Tracked client s) (i : Fin n) (now : Int) : Tracked client (s.touch i now) :=
  ⟨tracked.filed, tracked.live, tracked.single⟩

theorem Tracked.goto (tracked : Tracked client s) {next : Consumer}
    (before : (s.consumers i).running = true) (after : next.running = true) : Tracked client (s.goto i next) := by
  have same (j : Fin n) : ((s.goto i next).consumers j).running = (s.consumers j).running := by
    rw [running_goto]
    split
    · rename_i own
      rw [own, before, after]
    · rfl
  refine tracked.less (fun j => (same j ▸ ·)) (fun key j found => ⟨found, ?_⟩) (fun j here => ⟨⟨here.1, ?_⟩, rfl⟩)
  · rw [same]
    exact (tracked.filed key j found).2
  · rw [← same]
    exact here.2

theorem Tracked.shut (tracked : Tracked client s) (i : Fin n) : Tracked client (s.shut i) := by
  refine tracked.less (fun _ => id) (fun key j found => ⟨found, (tracked.filed key j found).2⟩)
    (fun j here => ⟨⟨?_, here.2⟩, rfl⟩)
  have opened := here.1
  by_cases own : j = i
  · simp [Forwarder.shut, own] at opened
  · simpa [Forwarder.shut, own] using opened

theorem Tracked.drop (tracked : Tracked client s) (dead : ∀ i, client i = key → ¬ Live s i) :
    Tracked client (s.drop key) := by
  refine tracked.less (fun _ => id) (fun other i found => ?_) (fun i here => ⟨here, ?_⟩)
  · rw [entry_drop] at found
    split at found
    · cases found
    · exact ⟨found, (tracked.filed other i found).2⟩
  · rw [entry_drop, if_neg]
    intro same
    exact dead i same here

theorem Tracked.discard (tracked : Tracked client s) (found : s.entry key = some i) :
    Tracked client ((s.shut i).drop key) := by
  refine (tracked.shut i).drop ?_
  rintro j rfl here
  have filed := (tracked.shut i).live j here
  obtain rfl : j = i := Option.some.inj (filed.symm.trans found)
  simpa [Forwarder.shut] using here.1

theorem Tracked.write (tracked : Tracked client s) (found : s.entry key = some i)
    (written : Bool) (now : Int) : Tracked client (s.write key i written now) := by
  cases written with
  | true => exact tracked.touch i now
  | false => exact (tracked.touch i now).discard found

theorem Tracked.dial (tracked : Tracked client s) (alone : ∀ j, client j = client i → (s.consumers j).running = false)
    (now : Int) : Tracked client (s.dial (client i) i now) := by
  have consumers (j : Fin n) : (s.dial (client i) i now).consumers j = if j = i then .consuming else s.consumers j :=
    Function.update_apply _ _ _ _
  have opened (j : Fin n) : (s.dial (client i) i now).isOpen j = if j = i then true else s.isOpen j :=
    Function.update_apply _ _ _ _
  constructor
  · intro key j found
    rw [entry_dial] at found
    rw [consumers]
    split at found
    · rename_i same
      obtain rfl := Option.some.inj found
      simp [same, Consumer.running]
    · rename_i other
      obtain ⟨here, running⟩ := tracked.filed key j found
      refine ⟨here, ?_⟩
      split
      · rfl
      · exact running
  · intro j here
    rw [Live, opened, consumers] at here
    rw [entry_dial]
    by_cases own : j = i
    · rw [own, if_pos rfl]
    · rw [if_neg own, if_neg own] at here
      rw [if_neg ?_]
      · exact tracked.live j here
      · intro same
        rw [alone j same] at here
        cases here.2
  · intro j k same first second
    rw [consumers] at first second
    have := tracked.single j k same
    have := alone j
    have := alone k
    grind

theorem Tracked.exit (tracked : Tracked client s) (leaving : s.consumers i = .leaving) :
    Tracked client ((s.drop (client i)).goto i .exited) := by
  have running : (s.consumers i).running = true := by
    rw [leaving]
    rfl
  have consumers (j : Fin n) : (((s.drop (client i)).goto i .exited).consumers j).running =
      if j = i then false else (s.consumers j).running := running_goto _ i .exited j
  refine tracked.less (fun j => ?_) (fun key j found => ?_) (fun j here => ?_)
  · rw [consumers]
    grind
  · rw [entry_goto, entry_drop] at found
    rw [consumers]
    have := tracked.filed key j
    grind
  · have there := consumers j
    rw [here.2] at there
    have other : j ≠ i := by grind
    have before : (s.consumers j).running = true := by grind
    refine ⟨⟨here.1, before⟩, ?_⟩
    rw [entry_goto, entry_drop, if_neg]
    intro same
    exact other (tracked.single j i same before running)

theorem Tracked.expire (tracked : Tracked client s) (fwdExpireBefore : Int) (key : K) :
    Tracked client (s.expire fwdExpireBefore key) := by
  unfold Forwarder.expire
  cases found : s.entry key with
  | none => exact tracked
  | some i =>
    simp only
    split
    · exact tracked.discard found
    · exact tracked

theorem Tracked.expireAll (tracked : Tracked client s) (fwdExpireBefore : Int) (keys : List K) :
    Tracked client (keys.foldl (fun s key => s.expire fwdExpireBefore key) s) := by
  induction keys generalizing s with
  | nil => exact tracked
  | cons key keys ih => exact ih (tracked.expire fwdExpireBefore key)

theorem Tracked.step (tracked : Tracked client s) (allowed : Allowed client s a) (moved : step client s a = some t) :
    Tracked client t := by
  cases a with
  | handlePacket key dialed written now =>
    simp only [UdpSessions.step] at moved
    cases found : s.entry key with
    | some i =>
      rw [found] at moved
      cases moved
      exact tracked.write found written now
    | none =>
      rw [found] at moved
      cases dialed with
      | none =>
        cases moved
        exact tracked
      | some i =>
        obtain ⟨⟨_, rfl⟩, rfl⟩ := guarded moved
        have dialed := tracked.dial (allowed found) now
        exact dialed.write (by rw [entry_dial, if_pos rfl]) written now
  | receive i now =>
    obtain ⟨_, rfl⟩ := guarded moved
    exact tracked.touch i now
  | consumed i =>
    obtain ⟨consuming, rfl⟩ := guarded moved
    exact tracked.goto (by rw [consuming]; rfl) rfl
  | closeConn i =>
    obtain ⟨returned, rfl⟩ := guarded moved
    exact (tracked.shut i).goto (by rw [show (s.shut i).consumers i = _ from returned]; rfl) rfl
  | exit i =>
    obtain ⟨leaving, rfl⟩ := guarded moved
    exact tracked.exit leaving
  | cleanupTimeout fwdExpireBefore =>
    cases moved
    exact tracked.expireAll fwdExpireBefore _

end Tracking

section Timeouts
variable {s : Forwarder K n} {fwdExpireBefore : Int}

theorem expire_closed (closed : s.isOpen i = false) (fwdExpireBefore : Int) (key : K) :
    (s.expire fwdExpireBefore key).isOpen i = false := by
  unfold Forwarder.expire
  split
  · split
    · simp only [Forwarder.drop, Forwarder.shut, Function.update_apply, closed, ite_self]
    · exact closed
  · exact closed

theorem expire_other {other : K} (apart : other ≠ key) (fwdExpireBefore : Int) :
    (s.expire fwdExpireBefore key).entry other = s.entry other ∧
      (s.expire fwdExpireBefore key).lastActive = s.lastActive := by
  unfold Forwarder.expire
  split
  · split
    · exact ⟨by rw [entry_drop, if_neg apart]; rfl, rfl⟩
    · exact ⟨rfl, rfl⟩
  · exact ⟨rfl, rfl⟩

theorem expire_all_closed (closed : s.isOpen i = false) (fwdExpireBefore : Int) (keys : List K) :
    (keys.foldl (fun s key => s.expire fwdExpireBefore key) s).isOpen i = false := by
  induction keys generalizing s with
  | nil => exact closed
  | cons key keys ih => exact ih (expire_closed closed fwdExpireBefore key)

theorem expire_all_closes (silent : s.lastActive i < fwdExpireBefore) (found : s.entry key = some i) {keys : List K}
    (member : key ∈ keys) : (keys.foldl (fun s key => s.expire fwdExpireBefore key) s).isOpen i = false := by
  induction keys generalizing s with
  | nil => cases member
  | cons first keys ih =>
    rw [List.foldl_cons]
    by_cases same : key = first
    · subst same
      refine expire_all_closed ?_ fwdExpireBefore keys
      simp only [Forwarder.expire, found, silent, if_true, Forwarder.drop, Forwarder.shut, Function.update_self]
    · obtain ⟨entry, active⟩ := expire_other (s := s) same fwdExpireBefore
      exact ih (by rw [active]; exact silent) (entry.trans found) ((List.mem_cons.1 member).resolve_left same)

theorem cleanup_closes (silent : s.lastActive i < fwdExpireBefore)
    (found : s.entry key = some i) : (s.cleanupTimeout fwdExpireBefore).isOpen i = false :=
  expire_all_closes silent found (mem_keys.2 ⟨i, found⟩)

end Timeouts

section Safety
variable {client : Fin n → K} {s : Forwarder K n}

/-- A live session is the entry of its client, so it gets the packets of that client and
    can be timed out, and the exit of a consumer leaves the entries of other sessions. -/
structure Safe (client : Fin n → K) (s : Forwarder K n) : Prop where
  entry : ∀ i, Live s i → s.entry (client i) = some i
  receives : ∀ i, Live s i → ∀ dialed written now, step client s (.handlePacket (client i) dialed written now) =
    some (s.write (client i) i written now)
  expires : ∀ i, Live s i → ∀ fwdExpireBefore, s.lastActive i < fwdExpireBefore →
    (s.cleanupTimeout fwdExpireBefore).isOpen i = false
  exits : ∀ i t, step client s (.exit i) = some t → ∀ key j, j ≠ i → s.entry key = some j → t.entry key = some j

theorem Tracked.safe (tracked : Tracked client s) : Safe client s := by
  constructor
  · exact tracked.live
  · intro i live dialed written now
    simp only [UdpSessions.step, tracked.live i live]
  · intro i live fwdExpireBefore silent
    exact cleanup_closes silent (tracked.live i live)
  · intro i t moved key j other found
    obtain ⟨leaving, rfl⟩ := guarded moved
    rw [entry_goto, entry_drop, if_neg]
    · exact found
    · rintro rfl
      obtain ⟨same, running⟩ := tracked.filed _ j found
      exact other (tracked.single j i same running (by rw [leaving]; rfl))

/-- In every interleaving in which a client is dialed for only when the consumers of its
    earlier sessions have exited, the sessions are tracked while they live. -/
theorem sessions_safe {as : List (Action K n)} (allowed : Along (step client) (Allowed client) (start K n) as)
    (reached : run (step client) (start K n) as = some s) : Safe client s :=
  (run_induct (P := fun _ s => Tracked client s) (tracked_start client)
    (fun _ _ _ _ _ tracked here moved => tracked.step here moved) allowed reached).safe

instance decidableAllowed (client : Fin n → K) : ∀ (s : Forwarder K n) (a : Action K n), Decidable (Allowed client s a)
  | s, .handlePacket key (some _) _ _ =>
    inferInstanceAs (Decidable (s.entry key = none → ∀ i, client i = key → (s.consumers i).running = false))
  | _, .handlePacket _ none _ _ | _, .receive _ _ | _, .consumed _ | _, .closeConn _ | _, .exit _
  | _, .cleanupTimeout _ => .isTrue trivial

def reconnecting (_ : Fin 2) : Bytes := text "10.0.0.1:5353"

def timeoutAndReturn (first second : Fin n) : List (Action Bytes n) :=
  [.handlePacket (text "10.0.0.1:5353") (some first) true 100, .receive first 101, .cleanupTimeout 160,
    .consumed first, .closeConn first, .exit first, .handlePacket (text "10.0.0.1:5353") (some second) true 170]

theorem timeout_and_return_safe :
    ∃ s, run (step reconnecting) (start Bytes 2) (timeoutAndReturn 0 1) = some s ∧ s.isOpen 0 = false ∧ Live s 1 ∧
      Safe reconnecting s :=
  have allowed : Along (step reconnecting) (Allowed reconnecting) (start Bytes 2) (timeoutAndReturn 0 1) := by
    decide +kernel
  ⟨_, rfl, rfl, ⟨rfl, rfl⟩, sessions_safe allowed rfl⟩

/-- A write fails, the client is dialed for again, and then the consumer of the first
    session exits: the second session is open and consuming but no longer an entry. -/
theorem late_exit_unsafe :
    ∃ s, run (step reconnecting) (start Bytes 2)
        [.handlePacket (text "10.0.0.1:5353") (some 0) true 100, .handlePacket (text "10.0.0.1:5353") none false 101,
          .handlePacket (text "10.0.0.1:5353") (some 1) true 102, .consumed 0, .closeConn 0, .exit 0] = some s ∧
      Live s 1 ∧ s.consumers 1 = .consuming ∧ s.entry (text "10.0.0.1:5353") = none ∧ ¬ Safe reconnecting s := by
  refine ⟨_, rfl, ⟨rfl, rfl⟩, rfl, rfl, fun safe => ?_⟩
  exact nomatch safe.entry 1 ⟨rfl, rfl⟩

end Safety

end UdpSessions
