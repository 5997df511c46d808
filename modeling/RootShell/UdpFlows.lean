import RootShell.ByteText
import RootShell.Interleaving
import RootShell.KeyedTables
import Mathlib.Logic.Function.Basic

/-!
The UDP flows of the tunnel. A flow is filed under a text made of its two addresses, and its
goroutine takes that text out when it returns, whoever is filed under it then. The netstack
keeps the endpoints of one address pair apart; what follows for the table is proved here.
-/
namespace UdpFlows
open ByteLines ByteText Interleaving KeyedTables
universe u
variable {A : Type u} {n : Nat} {i : Fin n}

section Keys

structure AddressTexts (A : Type u) where
  string : A → Bytes
  injective : Function.Injective string
  plain : ∀ a, 45 ∉ string a ∧ 91 ∉ string a

structure FlowID (A : Type u) where
  localAddress : A
  localPort : UInt16
  remoteAddress : A
  remotePort : UInt16
  deriving DecidableEq

def joinHostPort (host port : Bytes) : Bytes :=
  if 58 ∈ host then 91 :: host ++ [93, 58] ++ port else host ++ 58 :: port

def AddressTexts.join (texts : AddressTexts A) (address : A) (port : UInt16) : Bytes :=
  joinHostPort (texts.string address) (itoa port.toNat)

def AddressTexts.key (texts : AddressTexts A) (id : FlowID A) : Bytes :=
  texts.join id.remoteAddress id.remotePort ++ text "->" ++ texts.join id.localAddress id.localPort

theorem cut_cases {c : UInt8} {a b p q : Bytes} (same : a ++ c :: p = b ++ c :: q) :
    a = b ∧ p = q ∨ c ∈ p ∧ c ∈ b ∨ c ∈ q ∧ c ∈ a := by
  rcases List.append_eq_append_iff.1 same with ⟨r, rfl, rest⟩ | ⟨r, rfl, rest⟩ <;> cases r with
  | nil => simp_all
  | cons x r =>
    obtain ⟨rfl, rfl⟩ := List.cons.inj rest
    simp

theorem join_host_port_cut (host port : Bytes) : ∃ front, joinHostPort host port = front ++ 58 :: port ∧
    (front = host ∨ front = 91 :: host ++ [93]) := by
  unfold joinHostPort
  split
  · exact ⟨91 :: host ++ [93], by simp, .inr rfl⟩
  · exact ⟨host, rfl, .inl rfl⟩

theorem itoa_no_colon (m : Nat) : 58 ∉ itoa m := itoa_clean m (by decide)

variable (texts : AddressTexts A)

theorem join_injective {a b : A} {p q : UInt16} (same : texts.join a p = texts.join b q) : a = b ∧ p = q := by
  obtain ⟨front, first, left⟩ := join_host_port_cut (texts.string a) (itoa p.toNat)
  obtain ⟨back, second, right⟩ := join_host_port_cut (texts.string b) (itoa q.toNat)
  unfold AddressTexts.join at same
  rw [first, second] at same
  obtain ⟨rfl, ports⟩ : front = back ∧ itoa p.toNat = itoa q.toNat := by
    have := cut_cases same
    have := itoa_no_colon p.toNat
    have := itoa_no_colon q.toNat
    tauto
  refine ⟨texts.injective ?_, UInt16.toNat.inj (itoa_injective ports)⟩
  rcases left with rfl | rfl <;> rcases right with right | right
  · exact right
  · exact absurd (by simp [right]) (texts.plain a).2
  · exact absurd (by simp [← right]) (texts.plain b).2
  · simpa using right

theorem join_no_dash (a : A) (p : UInt16) : 45 ∉ texts.join a p := by
  obtain ⟨front, joined, shape⟩ := join_host_port_cut (texts.string a) (itoa p.toNat)
  have := (texts.plain a).1
  have := itoa_clean p.toNat (b := 45) (by decide)
  unfold AddressTexts.join
  rw [joined]
  rcases shape with rfl | rfl <;> simp_all

theorem key_injective : Function.Injective texts.key := by
  intro x y same
  have arrow : text "->" = [45, 62] := rfl
  unfold AddressTexts.key at same
  simp only [arrow, List.append_assoc, List.cons_append, List.nil_append] at same
  obtain ⟨sources, rest⟩ := (cut_cases same).resolve_right fun other => by
    rcases other with other | other
    · exact join_no_dash texts _ _ other.2
    · exact join_no_dash texts _ _ other.2
  obtain ⟨remoteAddress, remotePort⟩ := join_injective texts sources
  obtain ⟨localAddress, localPort⟩ := join_injective texts (List.cons.inj rest).2
  cases x
  cases y
  simp_all

theorem key_suffix_iff (id : FlowID A) (port : Nat) :
    (58 :: itoa port).isSuffixOf (texts.key id) = true ↔ id.localPort.toNat = port := by
  obtain ⟨front, joined, _⟩ := join_host_port_cut (texts.string id.localAddress) (itoa id.localPort.toNat)
  have whole : texts.key id = (texts.join id.remoteAddress id.remotePort ++ text "->" ++ front) ++
      58 :: itoa id.localPort.toNat := by
    unfold AddressTexts.key
    rw [show texts.join id.localAddress id.localPort = _ from joined, List.append_assoc _ front]
  rw [List.isSuffixOf_iff_suffix, whole]
  constructor
  · rintro ⟨back, same⟩
    have := cut_cases same
    have := itoa_no_colon port
    have := itoa_no_colon id.localPort.toNat
    exact itoa_injective (by tauto)
  · rintro rfl
    exact List.suffix_append _ _

end Keys

section Flows
variable [DecidableEq A]

def second : Int := 1000000000

def udpIdleTimeout : Int := 60 * second

def udpIdleTimeoutQUIC : Int := 180 * second

def udpAdmissionEvictAge : Int := 5 * second

def maxActiveUDPFlows : Nat := 512

inductive Phase where
  | unborn
  | created
  | refused
  | flowing
  | deleted
  | ended
  deriving DecidableEq

def Phase.isOpen : Phase → Bool
  | created | refused | flowing | deleted => true
  | _ => false

inductive Remote where
  | missing
  | opened
  | closed
  deriving DecidableEq

def Remote.close : Remote → Remote
  | missing => missing
  | _ => closed

structure Forwarder (n : Nat) where
  phases : Fin n → Phase
  remotes : Fin n → Remote
  cancelled : Fin n → Bool
  lastUse : Fin n → Int
  conns : Table Bytes (Fin n)

def start (n : Nat) : Forwarder n where
  phases _ := .unborn
  remotes _ := .missing
  cancelled _ := false
  lastUse _ := 0
  conns := ∅

inductive Action (n : Nat) where
  | createEndpoint (i : Fin n) (granted : Bool)
  | handleUDP (i : Fin n) (evictNow now : Int) (order : List Bytes)
  | refuse (i : Fin n)
  | dial (i : Fin n)
  | traffic (i : Fin n) (now : Int)
  | delete (i : Fin n)
  | close (i : Fin n)
  | closePort (dstPort : Nat)
  | cleanup (now : Int)

def idleTimeout (id : FlowID A) : Int := if id.localPort = 443 then udpIdleTimeoutQUIC else udpIdleTimeout

namespace Forwarder
variable (s : Forwarder n)

def entry (key : Bytes) : Option (Fin n) := get (some s.conns) key

def size : Nat := s.conns.entries.length

def goto (i : Fin n) (next : Phase) : Forwarder n := { s with phases := Function.update s.phases i next }

def touch (i : Fin n) (now : Int) : Forwarder n := { s with lastUse := Function.update s.lastUse i now }

def connect (i : Fin n) : Forwarder n := { s with remotes := Function.update s.remotes i .opened }

def shut (i : Fin n) : Forwarder n :=
  { s with
    remotes := Function.update s.remotes i (s.remotes i).close
    cancelled := Function.update s.cancelled i true }

def file (key : Bytes) (i : Fin n) : Forwarder n := { s with conns := s.conns.insert key i }

def drop (key : Bytes) : Forwarder n := { s with conns := s.conns.erase key }

def visit (goes : Bytes → Fin n → Bool) (key : Bytes) : Forwarder n :=
  match s.entry key with
  | some i => if goes key i then (s.shut i).drop key else s
  | none => s

def sweep (goes : Bytes → Fin n → Bool) : Forwarder n := s.conns.keys.foldl (fun s key => s.visit goes key) s

def closePort (dstPort : Nat) : Forwarder n := s.sweep fun key _ => (58 :: itoa dstPort).isSuffixOf key

def cleanup (id : Fin n → FlowID A) (now : Int) : Forwarder n :=
  s.sweep fun _ i => idleTimeout (id i) < now - s.lastUse i

def older (now minIdle : Int) (victim : Option (Bytes × Fin n)) (key : Bytes) : Option (Bytes × Fin n) :=
  match s.entry key with
  | none => victim
  | some i =>
    if now - s.lastUse i < minIdle then victim
    else
      match victim with
      | none => some (key, i)
      | some (_, j) => if s.lastUse i < s.lastUse j then some (key, i) else victim

def evictOldestIdleLocked (now minIdle : Int) (order : List Bytes) : Forwarder n × Bool :=
  match order.foldl (s.older now minIdle) none with
  | none => (s, false)
  | some (victimKey, victim) => ((s.shut victim).drop victimKey, true)

def makeRoom (evictNow : Int) (order : List Bytes) : Forwarder n :=
  if maxActiveUDPFlows ≤ s.size then (s.evictOldestIdleLocked evictNow udpAdmissionEvictAge order).1 else s

def handleUDP (key : Bytes) (i : Fin n) (evictNow now : Int) (order : List Bytes) : Forwarder n :=
  match s.entry key with
  | some existing => (s.touch existing now).goto i .refused
  | none =>
    if maxActiveUDPFlows ≤ (s.makeRoom evictNow order).size then (s.makeRoom evictNow order).goto i .refused
    else (((s.makeRoom evictNow order).touch i now).file key i).goto i .flowing

end Forwarder

/-- An endpoint is not created while one for the same addresses is open. -/
def step (texts : AddressTexts A) (id : Fin n → FlowID A) (s : Forwarder n) : Action n → Option (Forwarder n)
  | .createEndpoint i granted =>
    if s.phases i = .unborn then
      some (s.goto i (if granted = true ∧ ∀ j, id j = id i → (s.phases j).isOpen = false then .created else .ended))
    else none
  | .handleUDP i evictNow now order =>
    if s.phases i = .created ∧ order.Perm s.conns.keys then some (s.handleUDP (texts.key (id i)) i evictNow now order)
    else none
  | .refuse i => if s.phases i = .refused then some (s.goto i .ended) else none
  | .dial i => if s.phases i = .flowing ∧ s.remotes i = .missing then some (s.connect i) else none
  | .traffic i now =>
    if s.phases i = .flowing ∨ s.phases i = .deleted ∨ s.phases i = .ended then some (s.touch i now) else none
  | .delete i => if s.phases i = .flowing then some ((s.drop (texts.key (id i))).goto i .deleted) else none
  | .close i => if s.phases i = .deleted then some ((s.goto i .ended).shut i) else none
  | .closePort dstPort => some (s.closePort dstPort)
  | .cleanup now => some (s.cleanup id now)

end Flows

section Views
variable (s : Forwarder n)

theorem phases_goto (i : Fin n) (next : Phase) (j : Fin n) :
    (s.goto i next).phases j = if j = i then next else s.phases j := Function.update_apply _ _ _ _

@[simp] theorem entry_goto (i : Fin n) (next : Phase) (key : Bytes) : (s.goto i next).entry key = s.entry key := rfl

@[simp] theorem entry_drop (other key : Bytes) :
    (s.drop other).entry key = if key = other then none else s.entry key := get_delete (some s.conns) other key

@[simp] theorem entry_file (other : Bytes) (i : Fin n) (key : Bytes) :
    (s.file other i).entry key = if key = other then some i else s.entry key := get_insert _ _ _ _

theorem size_drop (key : Bytes) : (s.drop key).size ≤ s.size := (List.kerase_sublist key s.conns.entries).length_le

theorem size_file (key : Bytes) (i : Fin n) : (s.file key i).size ≤ s.size + 1 :=
  Nat.succ_le_succ (size_drop s key)

theorem flowing_open {s : Forwarder n} (flowing : s.phases i = .flowing) : (s.phases i).isOpen = true := by
  rw [flowing]
  rfl

theorem flowing_goto {s : Forwarder n} {j : Fin n} (flowing : s.phases j = .flowing) (outside : s.phases i ≠ .flowing)
    (next : Phase) : (s.goto i next).phases j = .flowing := by
  rw [phases_goto, if_neg]
  · exact flowing
  · rintro rfl
    exact outside flowing

theorem open_goto {s : Forwarder n} {j : Fin n} {next : Phase}
    (endpoint : next.isOpen = true → (s.phases i).isOpen = true)
    (opened : ((s.goto i next).phases j).isOpen = true) : (s.phases j).isOpen = true := by
  rw [phases_goto] at opened
  split at opened
  · rename_i own
    rw [own]
    exact endpoint opened
  · exact opened

end Views

section Tracking
variable {texts : AddressTexts A} {id : Fin n → FlowID A} {s t : Forwarder n}

structure Consistent (texts : AddressTexts A) (id : Fin n → FlowID A) (s : Forwarder n) : Prop where
  within : s.size ≤ maxActiveUDPFlows
  filed : ∀ key i, s.entry key = some i → key = texts.key (id i) ∧ s.phases i = .flowing
  single : ∀ i j, id i = id j → (s.phases i).isOpen = true → (s.phases j).isOpen = true → i = j

theorem consistent_start (texts : AddressTexts A) (id : Fin n → FlowID A) : Consistent texts id (start n) where
  within := by simp [start, Forwarder.size]
  filed := by simp [start, Forwarder.entry]
  single := by simp [start, Phase.isOpen]

theorem Consistent.less (consistent : Consistent texts id s) (size : t.size ≤ s.size)
    (entries : ∀ key i, t.entry key = some i → s.entry key = some i ∧ t.phases i = .flowing)
    (endpoints : ∀ i, (t.phases i).isOpen = true → (s.phases i).isOpen = true) : Consistent texts id t where
  within := size.trans consistent.within
  filed key i found := ⟨(consistent.filed key i (entries key i found).1).1, (entries key i found).2⟩
  single i j same first second := consistent.single i j same (endpoints i first) (endpoints j second)

theorem Consistent.touch (consistent : Consistent texts id s) (i : Fin n) (now : Int) :
    Consistent texts id (s.touch i now) :=
  ⟨consistent.within, consistent.filed, consistent.single⟩

theorem Consistent.connect (consistent : Consistent texts id s) (i : Fin n) : Consistent texts id (s.connect i) :=
  ⟨consistent.within, consistent.filed, consistent.single⟩

theorem Consistent.shut (consistent : Consistent texts id s) (i : Fin n) : Consistent texts id (s.shut i) :=
  ⟨consistent.within, consistent.filed, consistent.single⟩

theorem Consistent.drop (consistent : Consistent texts id s) (key : Bytes) : Consistent texts id (s.drop key) := by
  refine consistent.less (size_drop s key) (fun other i found => ?_) (fun _ opened => opened)
  rw [entry_drop] at found
  split at found
  · cases found
  · exact ⟨found, (consistent.filed other i found).2⟩

theorem Consistent.goto (consistent : Consistent texts id s) {next : Phase} (outside : s.phases i ≠ .flowing)
    (endpoint : next.isOpen = true → (s.phases i).isOpen = true) : Consistent texts id (s.goto i next) := by
  refine consistent.less le_rfl (fun key j found => ⟨found, ?_⟩) (fun j => open_goto endpoint)
  exact flowing_goto (consistent.filed key j found).2 outside next

theorem Consistent.create (consistent : Consistent texts id s) (unborn : s.phases i = .unborn)
    (alone : ∀ j, id j = id i → (s.phases j).isOpen = false) : Consistent texts id (s.goto i .created) where
  within := consistent.within
  filed key j found := by
    obtain ⟨same, flowing⟩ := consistent.filed key j found
    exact ⟨same, flowing_goto flowing (by simp [unborn]) _⟩
  single j k same first second := by
    -- If one of the two is the new flow, the other is open for the same addresses.
    rw [phases_goto] at first second
    have := consistent.single j k same
    have := alone j
    have := alone k
    grind

theorem Consistent.file (consistent : Consistent texts id s) (created : s.phases i = .created)
    (room : s.size < maxActiveUDPFlows) : Consistent texts id ((s.file (texts.key (id i)) i).goto i .flowing) where
  within := (size_file s (texts.key (id i)) i).trans room
  filed key j found := by
    rw [entry_goto, entry_file] at found
    rw [phases_goto]
    split at found
    · rename_i same
      obtain rfl := Option.some.inj found
      exact ⟨same, if_pos rfl⟩
    · obtain ⟨same, flowing⟩ := consistent.filed key j found
      refine ⟨same, ?_⟩
      split
      · rfl
      · exact flowing
  single j k same first second := by
    have endpoint : Phase.flowing.isOpen = true → (s.phases i).isOpen = true := by simp [created, Phase.isOpen]
    exact consistent.single j k same (open_goto endpoint first) (open_goto endpoint second)

theorem Consistent.delete (consistent : Consistent texts id s) (flowing : s.phases i = .flowing) :
    Consistent texts id ((s.drop (texts.key (id i))).goto i .deleted) := by
  refine consistent.less (size_drop s _) (fun key j found => ?_) (fun j => open_goto fun _ => flowing_open flowing)
  rw [entry_goto, entry_drop] at found
  split at found
  · cases found
  · rename_i other
    obtain ⟨same, there⟩ := consistent.filed key j found
    refine ⟨found, ?_⟩
    rw [phases_goto, if_neg]
    · exact there
    · rintro rfl
      exact other same

theorem Consistent.visit (consistent : Consistent texts id s) (goes : Bytes → Fin n → Bool) (key : Bytes) :
    Consistent texts id (s.visit goes key) := by
  unfold Forwarder.visit
  split
  · split
    · exact (consistent.shut _).drop key
    · exact consistent
  · exact consistent

theorem Consistent.sweep (consistent : Consistent texts id s) (goes : Bytes → Fin n → Bool) :
    Consistent texts id (s.sweep goes) := by
  unfold Forwarder.sweep
  generalize s.conns.keys = keys
  induction keys generalizing s with
  | nil => exact consistent
  | cons key keys ih => exact ih (consistent.visit goes key)

theorem Consistent.makeRoom (consistent : Consistent texts id s) (evictNow : Int) (order : List Bytes) :
    Consistent texts id (s.makeRoom evictNow order) ∧ (s.makeRoom evictNow order).phases = s.phases := by
  unfold Forwarder.makeRoom Forwarder.evictOldestIdleLocked
  split
  · split
    · exact ⟨consistent, rfl⟩
    · exact ⟨(consistent.shut _).drop _, rfl⟩
  · exact ⟨consistent, rfl⟩

theorem Consistent.handleUDP (consistent : Consistent texts id s) (created : s.phases i = .created)
    (evictNow now : Int) (order : List Bytes) :
    Consistent texts id (s.handleUDP (texts.key (id i)) i evictNow now order) := by
  have outside : s.phases i ≠ .flowing := by simp [created]
  have endpoint : (s.phases i).isOpen = true := by rw [created]; rfl
  obtain ⟨room, phases⟩ := consistent.makeRoom evictNow order
  unfold Forwarder.handleUDP
  split
  · exact (consistent.touch _ now).goto outside fun _ => endpoint
  · split
    · exact room.goto (by rwa [phases]) fun _ => by rwa [phases]
    · rename_i free
      exact (room.touch i now).file (congrFun phases i |>.trans created) (Nat.not_le.1 free)

theorem Consistent.step [DecidableEq A] (consistent : Consistent texts id s) {a : Action n}
    (moved : step texts id s a = some t) : Consistent texts id t := by
  cases a with
  | createEndpoint i granted =>
    obtain ⟨unborn, rfl⟩ := guarded moved
    split
    · rename_i alone
      exact consistent.create unborn alone.2
    · exact consistent.goto (by simp [unborn]) nofun
  | handleUDP i evictNow now order =>
    obtain ⟨⟨created, _⟩, rfl⟩ := guarded moved
    exact consistent.handleUDP created evictNow now order
  | refuse i =>
    obtain ⟨refused, rfl⟩ := guarded moved
    exact consistent.goto (by simp [refused]) nofun
  | dial i =>
    obtain ⟨_, rfl⟩ := guarded moved
    exact consistent.connect i
  | traffic i now =>
    obtain ⟨_, rfl⟩ := guarded moved
    exact consistent.touch i now
  | delete i =>
    obtain ⟨flowing, rfl⟩ := guarded moved
    exact consistent.delete flowing
  | close i =>
    obtain ⟨deleted, rfl⟩ := guarded moved
    have ended : Consistent texts id (s.goto i .ended) := consistent.goto (by simp [deleted]) nofun
    exact ended.shut i
  | closePort dstPort =>
    cases moved
    exact consistent.sweep _
  | cleanup now =>
    cases moved
    exact consistent.sweep _

/-- The endpoint of a key is the one open endpoint whose addresses spell it. -/
def Owns (texts : AddressTexts A) (id : Fin n → FlowID A) (s : Forwarder n) (key : Bytes) (i : Fin n) : Prop :=
  ((s.phases i).isOpen = true ∧ texts.key (id i) = key) ∧
    ∀ j, (s.phases j).isOpen = true → texts.key (id j) = key → j = i

theorem Consistent.owns (consistent : Consistent texts id s) {key : Bytes}
    (found : s.entry key = some i) : Owns texts id s key i := by
  obtain ⟨rfl, flowing⟩ := consistent.filed key i found
  refine ⟨⟨flowing_open flowing, rfl⟩, fun j opened same => ?_⟩
  exact consistent.single j i (key_injective texts same) opened (flowing_open flowing)

/-- In every interleaving the table is within its bound, an entry is the tracker of the flow
    that owns the open endpoint of its key, and the deferred delete of a flow leaves the
    trackers of the others in the table. -/
theorem udp_flows_consistent [DecidableEq A] (texts : AddressTexts A) (id : Fin n → FlowID A) {as : List (Action n)}
    (reached : run (UdpFlows.step texts id) (start n) as = some s) :
    s.conns.entries.length ≤ maxActiveUDPFlows ∧
      (∀ key i, s.entry key = some i → Owns texts id s key i) ∧
      ∀ i t, UdpFlows.step texts id s (.delete i) = some t →
        ∀ key j, j ≠ i → s.entry key = some j → t.entry key = some j := by
  have consistent : Consistent texts id s :=
    run_invariant (consistent_start texts id) (fun _ _ _ before moved => before.step moved) reached
  refine ⟨consistent.within, fun _ _ => consistent.owns, ?_⟩
  intro i t moved key j other found
  obtain ⟨flowing, rfl⟩ := guarded moved
  rw [entry_goto, entry_drop, if_neg]
  · exact found
  · -- The other flow would own a second open endpoint of the same addresses.
    rintro rfl
    exact other ((consistent.owns found).2 i (flowing_open flowing) rfl).symm

def dottedText (a : Bytes) : Bytes := [46].intercalate (a.map fun b => itoa b.toNat)

def readDotted (s : Bytes) : Bytes := (s.splitOn 46).map fun p => UInt8.ofNat ((parseUint 10 p).getD 0)

theorem dotted_read (some : a ≠ []) : readDotted (dottedText a) = a := by
  have value : ∀ n < 256, UInt8.ofNat ((parseUint 10 (itoa n)).getD 0) = UInt8.ofNat n := by decide +kernel
  rw [readDotted, dottedText, List.splitOn_intercalate 46 ?_ (by simpa using some), List.map_map]
  · exact List.map_id'' (fun b => (value b.toNat b.toNat_lt).trans UInt8.ofNat_toNat) a
  · intro p member
    obtain ⟨b, _, rfl⟩ := List.mem_map.1 member
    exact itoa_clean b.toNat (by decide)

structure IPv4 where
  a : UInt8
  b : UInt8
  c : UInt8
  d : UInt8
  deriving DecidableEq

def IPv4.string (ip : IPv4) : Bytes := dottedText [ip.a, ip.b, ip.c, ip.d]

def dotted : AddressTexts IPv4 where
  string := IPv4.string
  injective x y same := by
    have read := congrArg readDotted same
    rw [IPv4.string, IPv4.string, dotted_read (by simp), dotted_read (by simp)] at read
    cases x
    cases y
    simpa using read
  plain ip := by
    have dash (x : UInt8) := itoa_clean x.toNat (b := 45) (by decide)
    have bracket (x : UInt8) := itoa_clean x.toNat (b := 91) (by decide)
    simp [IPv4.string, dottedText, List.intercalate_cons_cons, dash, bracket]

def quic : FlowID IPv4 where
  localAddress := ⟨93, 184, 216, 34⟩
  localPort := 443
  remoteAddress := ⟨10, 0, 0, 1⟩
  remotePort := 50000

def closedAndBack (first refused again : Fin n) : List (Action n) :=
  [.createEndpoint first true, .handleUDP first 0 0 [], .dial first, .traffic first 1, .closePort 443,
    .createEndpoint refused true, .delete first, .close first, .createEndpoint again true, .handleUDP again 2 2 []]

theorem closed_and_back_consistent :
    ∃ s : Forwarder 3, run (UdpFlows.step dotted fun _ => quic) (start 3) (closedAndBack 0 1 2) = some s ∧
      s.phases 1 = .ended ∧ s.entry (text "10.0.0.1:50000->93.184.216.34:443") = some 2 ∧
      s.conns.entries.length ≤ maxActiveUDPFlows ∧
      (∀ key i, s.entry key = some i → Owns dotted (fun _ => quic) s key i) ∧
      ∀ i t, UdpFlows.step dotted (fun _ => quic) s (.delete i) = some t →
        ∀ key j, j ≠ i → s.entry key = some j → t.entry key = some j := by
  have ran : (run (UdpFlows.step dotted fun _ => quic) (start 3) (closedAndBack 0 1 2)).map (fun s =>
      (s.phases 1, s.entry (text "10.0.0.1:50000->93.184.216.34:443"))) = some (.ended, some 2) := by decide +kernel
  obtain ⟨s, reached, facts⟩ := Option.map_eq_some_iff.1 ran
  obtain ⟨refused, again⟩ := Prod.mk.inj facts
  exact ⟨s, reached, refused, again, udp_flows_consistent dotted (fun _ => quic) reached⟩

end Tracking

section Sweeps
variable {s : Forwarder n}

theorem visit_entry (goes : Bytes → Fin n → Bool) (key other : Bytes) :
    (s.visit goes key).entry other = if other = key then (s.entry other).filter fun i => !goes other i
      else s.entry other := by
  unfold Forwarder.visit
  by_cases same : other = key
  · subst same
    rw [if_pos rfl]
    cases found : s.entry other with
    | none => exact found
    | some i =>
      cases gone : goes other i with
      | false => simp [gone, found, Option.filter_some]
      | true => simp [gone, Option.filter_some]
  · rw [if_neg same]
    split
    · split
      · rw [entry_drop, if_neg same]
        rfl
      · rfl
    · rfl

theorem visits_entry (goes : Bytes → Fin n → Bool) (keys : List Bytes) (key : Bytes) :
    (keys.foldl (fun s key => s.visit goes key) s).entry key =
      if key ∈ keys then (s.entry key).filter fun i => !goes key i else s.entry key := by
  induction keys generalizing s with
  | nil => simp
  | cons first keys ih =>
    rw [List.foldl_cons, ih, visit_entry]
    by_cases same : key = first
    · simp [same, Option.filter_filter]
    · simp [same]

theorem sweep_entry (goes : Bytes → Fin n → Bool) (key : Bytes) :
    (s.sweep goes).entry key = (s.entry key).filter fun i => !goes key i := by
  unfold Forwarder.sweep
  rw [visits_entry]
  split
  · rfl
  · rename_i missing
    have free : s.entry key = none :=
      Option.eq_none_iff_forall_ne_some.2 fun i found => missing (mem_keys.2 ⟨i, found⟩)
    rw [free]
    rfl

/-- Whatever has happened before, `closePort` leaves exactly the flows to other ports. -/
theorem close_port_entry [DecidableEq A] {texts : AddressTexts A} {id : Fin n → FlowID A} {as : List (Action n)}
    (reached : run (UdpFlows.step texts id) (start n) as = some s) (dstPort : Nat) (key : Bytes) (i : Fin n) :
    (s.closePort dstPort).entry key = some i ↔ s.entry key = some i ∧ (id i).localPort.toNat ≠ dstPort := by
  have consistent : Consistent texts id s :=
    run_invariant (consistent_start texts id) (fun _ _ _ before moved => before.step moved) reached
  unfold Forwarder.closePort
  rw [sweep_entry, Option.filter_eq_some_iff]
  refine and_congr_right fun found => ?_
  obtain ⟨rfl, _⟩ := consistent.filed key i found
  rw [Bool.not_eq_true', ← Bool.not_eq_true, key_suffix_iff]

theorem closed_and_back_ports :
    ∃ s : Forwarder 3, run (UdpFlows.step dotted fun _ => quic) (start 3) (closedAndBack 0 1 2) = some s ∧
      ∀ dstPort key i, (s.closePort dstPort).entry key = some i ↔ s.entry key = some i ∧ 443 ≠ dstPort := by
  obtain ⟨s, reached⟩ : ∃ s : Forwarder 3, run (UdpFlows.step dotted fun _ => quic) (start 3) (closedAndBack 0 1 2) =
    some s := Option.isSome_iff_exists.1 (by decide +kernel)
  exact ⟨s, reached, close_port_entry reached⟩

end Sweeps

end UdpFlows
