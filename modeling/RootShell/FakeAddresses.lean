import RootShell.Interleaving
import RootShell.RingTables
import RootShell.RoutingRules

/-!
The two address memories of Tailscale mode: the pool that stands fake addresses in for
names the SSH host resolves, and the recent DNS answers of names with a direct rule. Both
are rings; an empty name and the zero address mark their free slots.
-/
namespace FakeAddresses
open ByteLines AddressPrefixes Interleaving RingTables RoutingRules

def fakeIPCapacity : Nat := 8192

structure FakeIPPool where
  base : BitVec 32
  ring : Ring Bytes fakeIPCapacity

/-- The first two addresses of the range are skipped. -/
def newFakeIPPool : FakeIPPool where
  base := 0xC6120000#32 + 2
  ring := empty [] (by decide)

namespace FakeIPPool

def byIdx (p : FakeIPPool) : Fin fakeIPCapacity → Bytes := p.ring.slots

def byHost (p : FakeIPPool) : Bytes → Option (Fin fakeIPCapacity) := p.ring.index

def addr (p : FakeIPPool) (idx : Fin fakeIPCapacity) : Addr := .v4 (p.base + BitVec.ofNat 32 idx)

def assign (p : FakeIPPool) (host : Bytes) : Addr × FakeIPPool :=
  match p.byHost host with
  | some idx => (p.addr idx, p)
  | none => (p.addr p.ring.next, { p with ring := take [] p.ring host })

def host (p : FakeIPPool) : Addr → Option Bytes
  | .v4 v =>
    if inRing : ¬ v < p.base ∧ (v - p.base).toNat < fakeIPCapacity then
      let h := p.byIdx ⟨(v - p.base).toNat, inRing.2⟩
      if h = [] then none else some h
    else none
  | _ => none

def assigned (p : FakeIPPool) (hosts : List Bytes) : FakeIPPool :=
  hosts.foldl (fun p host => (p.assign host).2) p

def allocations (hosts : List Bytes) : Nat := taken [] newFakeIPPool.ring hosts

theorem assign_pool (p : FakeIPPool) (host : Bytes) : (p.assign host).2 = { p with ring := put [] p.ring host } := by
  cases known : p.ring.index host with
  | some idx => simp [assign, byHost, put, known]
  | none => simp [assign, byHost, put, known]

theorem assigned_pool (p : FakeIPPool) (hosts : List Bytes) :
    p.assigned hosts = { p with ring := puts [] p.ring hosts } := by
  induction hosts generalizing p with
  | nil => rfl
  | cons host hosts ih =>
    have step : p.assigned (host :: hosts) = (p.assign host).2.assigned hosts := rfl
    rw [step, ih, assign_pool]
    rfl

theorem named_iff_slot (p : FakeIPPool) (v : BitVec 32) :
    (p.host (.v4 v)).isSome = true ↔
      ∃ inRing : ¬ v < p.base ∧ (v - p.base).toNat < fakeIPCapacity,
        p.byIdx ⟨(v - p.base).toNat, inRing.2⟩ ≠ [] := by
  simp only [host]
  split
  · rename_i inRing
    split
    · rename_i blank
      constructor
      · intro absent
        cases absent
      · rintro ⟨_, named⟩
        exact absurd blank named
    · rename_i named
      exact iff_of_true rfl ⟨inRing, named⟩
  · rename_i outside
    constructor
    · intro absent
      cases absent
    · rintro ⟨inRing, _⟩
      exact absurd inRing outside

/-- An address of the ring has a name once its slot has been handed out: the slots are
    handed out in turn, and one that is taken over gets another name. -/
theorem named_iff_allocated {hosts : List Bytes} (named : [] ∉ hosts) (v : BitVec 32) :
    ((newFakeIPPool.assigned hosts).host (.v4 v)).isSome = true ↔
      ¬ v < newFakeIPPool.base ∧ (v - newFakeIPPool.base).toNat < fakeIPCapacity ∧
        (v - newFakeIPPool.base).toNat < allocations hosts := by
  have filled : Filled [] (puts [] newFakeIPPool.ring hosts) (allocations hosts) := by
    have run := puts_filled named (empty_filled [] (by decide : 0 < fakeIPCapacity))
    rwa [Nat.zero_add] at run
  rw [assigned_pool, named_iff_slot]
  constructor
  · rintro ⟨inRing, slot⟩
    exact ⟨inRing.1, inRing.2, (filled.slots _).1 slot⟩
  · rintro ⟨above, below, taken⟩
    exact ⟨⟨above, below⟩, (filled.slots ⟨_, below⟩).2 taken⟩

section Addresses

theorem addr_inside (p : FakeIPPool) (base : p.base = newFakeIPPool.base) (idx : Fin fakeIPCapacity) :
    fakeIPPrefix.contains (p.addr idx) = true := by
  have small : idx.val < 8192 := idx.isLt
  have value : (p.base + BitVec.ofNat 32 idx.val).toNat = 0xC6120002 + idx.val := by
    rw [base]
    simp [newFakeIPPool]
    omega
  change agree 15 0xC6120000#32 (p.base + BitVec.ofNat 32 idx.val) = true
  rw [agree, beq_iff_eq]
  apply BitVec.eq_of_toNat_eq
  simp only [BitVec.toNat_ushiftRight, value, Nat.shiftRight_eq_div_pow]
  simp
  omega

theorem addr_offset (p : FakeIPPool) (base : p.base = newFakeIPPool.base) (idx : Fin fakeIPCapacity) :
    ¬ p.base + BitVec.ofNat 32 idx.val < p.base ∧ (p.base + BitVec.ofNat 32 idx.val - p.base).toNat = idx.val := by
  have small : idx.val < 8192 := idx.isLt
  rw [base]
  simp only [newFakeIPPool, BitVec.lt_def]
  simp
  omega

theorem addr_injective (p : FakeIPPool) (base : p.base = newFakeIPPool.base) {i j : Fin fakeIPCapacity}
    (same : p.addr i = p.addr j) : i = j := by
  have words := Addr.v4.inj same
  apply Fin.ext
  rw [← (addr_offset p base i).2, words, (addr_offset p base j).2]

theorem host_addr (p : FakeIPPool) (base : p.base = newFakeIPPool.base) {idx : Fin fakeIPCapacity} {h : Bytes}
    (value : h ≠ []) (slot : p.byIdx idx = h) : p.host (p.addr idx) = some h := by
  obtain ⟨above, offset⟩ := addr_offset p base idx
  have inRing : ¬ p.base + BitVec.ofNat 32 idx.val < p.base ∧
      (p.base + BitVec.ofNat 32 idx.val - p.base).toNat < fakeIPCapacity := ⟨above, by rw [offset]; exact idx.isLt⟩
  have here : (⟨_, inRing.2⟩ : Fin fakeIPCapacity) = idx := Fin.ext offset
  simp only [addr, host, dif_pos inRing, here, slot, if_neg value]

end Addresses

section Retention
variable {p : FakeIPPool} {h : Bytes}

def allocatedBy (p : FakeIPPool) (hosts : List Bytes) : Nat := taken [] p.ring hosts

structure Ringed (p : FakeIPPool) : Prop where
  inverse : ∀ h i, p.byHost h = some i ↔ h ≠ [] ∧ p.byIdx i = h
  answers : ∀ h, h ≠ [] → fakeIPPrefix.contains (p.assign h).1 = true ∧
    (p.assign h).2.host (p.assign h).1 = some h
  apart : ∀ h h' i i', p.byHost h = some i → p.byHost h' = some i' → h ≠ h' → p.addr i ≠ p.addr i'
  keeps : ∀ h later, h ≠ [] → p.byHost h = none → [] ∉ later →
    (p.assign h).2.allocatedBy later < fakeIPCapacity →
    (((p.assign h).2.assigned later).assign h).1 = (p.assign h).1 ∧
      ((p.assign h).2.assigned later).host (p.assign h).1 = some h
  loses : ∀ h later, h ≠ [] → p.byHost h = none → [] ∉ later →
    (p.assign h).2.allocatedBy later = fakeIPCapacity → ((p.assign h).2.assigned later).byHost h = none

theorem assigned_ring (p : FakeIPPool) (hosts : List Bytes) : (p.assigned hosts).ring = puts [] p.ring hosts := by
  rw [assigned_pool]

theorem assigned_base (p : FakeIPPool) (hosts : List Bytes) : (p.assigned hosts).base = p.base := by
  rw [assigned_pool]

theorem assign_known {i : Fin fakeIPCapacity} (known : p.byHost h = some i) : p.assign h = (p.addr i, p) := by
  simp [assign, known]

theorem assign_new (new : p.byHost h = none) :
    p.assign h = (p.addr p.ring.next, { p with ring := take [] p.ring h }) := by
  simp [assign, new]

theorem assign_answer (base : p.base = newFakeIPPool.base) (paired : Paired [] p.ring) (value : h ≠ []) :
    fakeIPPrefix.contains (p.assign h).1 = true ∧ (p.assign h).2.host (p.assign h).1 = some h := by
  cases known : p.byHost h with
  | some i =>
    rw [assign_known known]
    exact ⟨addr_inside p base i, host_addr p base value ((paired.index h i).1 known).2⟩
  | none =>
    rw [assign_new known]
    refine ⟨addr_inside p base _, host_addr { p with ring := take [] p.ring h } base value ?_⟩
    simp [byIdx, take_slots]

theorem assign_round (base : p.base = newFakeIPPool.base) (paired : Paired [] p.ring) (value : h ≠ [])
    (new : p.byHost h = none) {later : List Bytes} (named : [] ∉ later) :
    ((p.assign h).2.allocatedBy later < fakeIPCapacity →
      (((p.assign h).2.assigned later).assign h).1 = (p.assign h).1 ∧
        ((p.assign h).2.assigned later).host (p.assign h).1 = some h) ∧
    ((p.assign h).2.allocatedBy later = fakeIPCapacity → ((p.assign h).2.assigned later).byHost h = none) := by
  rw [assign_new new]
  have paired' := take_paired paired new value
  have round := puts_held named paired' (take_held_self p.ring h)
  have paired'' := puts_paired named paired'
  rw [Nat.zero_add] at round
  generalize final : ({ p with ring := take [] p.ring h } : FakeIPPool).assigned later = q
  have ring : q.ring = puts [] (take [] p.ring h) later := by rw [← final, assigned_ring]
  have base' : q.base = newFakeIPPool.base := by rw [← final, assigned_base]; exact base
  have addrs : q.addr p.ring.next = p.addr p.ring.next := by rw [addr, addr, base', base]
  rw [← ring] at round paired''
  refine ⟨fun fewer => ?_, fun gone => round.2 gone⟩
  have held := round.1 fewer
  have known : q.byHost h = some p.ring.next := held.index
  rw [assign_known known, ← addrs]
  exact ⟨rfl, host_addr q base' value ((paired''.index h _).1 held.index).2⟩

theorem fake_pool_ringed {hosts : List Bytes} (named : [] ∉ hosts) : Ringed (newFakeIPPool.assigned hosts) := by
  have base : (newFakeIPPool.assigned hosts).base = newFakeIPPool.base := assigned_base _ _
  have paired : Paired [] (newFakeIPPool.assigned hosts).ring := by
    rw [assigned_ring]
    exact puts_paired named (empty_paired [] (by decide))
  refine ⟨fun h i => paired.index h i, fun h value => assign_answer base paired value, ?_, ?_, ?_⟩
  · intro h h' i i' known known' other same
    have slot := addr_injective _ base same
    apply other
    rw [← ((paired.index h i).1 known).2, slot, ((paired.index h' i').1 known').2]
  · exact fun h later value new named' => (assign_round base paired value new named').1
  · exact fun h later value new named' => (assign_round base paired value new named').2

theorem two_names_ringed :
    Ringed (newFakeIPPool.assigned [text "one.example", text "two.example", text "one.example"]) :=
  fake_pool_ringed (by decide)

end Retention

end FakeIPPool

structure RecentIPs where
  cap : Nat
  ring : Ring Addr cap

def newRecentIPs (capacity : Nat) (positive : 0 < capacity) : RecentIPs where
  cap := capacity
  ring := empty .zero positive

namespace RecentIPs

def set (l : RecentIPs) : Addr → Option (Fin l.cap) := l.ring.index

def add (l : RecentIPs) (ip : Addr) : RecentIPs := { l with ring := put .zero l.ring ip.unmap }

def contains (l : RecentIPs) (ip : Addr) : Bool := (l.set ip.unmap).isSome

def order (l : RecentIPs) : Fin l.cap → Addr := l.ring.slots

def step (l : RecentIPs) (ip : Addr) : Option RecentIPs := some (l.add ip)

/-- The address is not in the set, or nothing has gone into the ring after it. -/
def Fresh (l : RecentIPs) (ip : Addr) : Prop :=
  l.contains ip = false ∨ ∃ i, l.set ip.unmap = some i ∧ following i = l.ring.next

instance (l : RecentIPs) (ip : Addr) : Decidable (Fresh l ip) :=
  inferInstanceAs (Decidable (l.contains ip = false ∨ ∃ i, l.set ip.unmap = some i ∧ following i = l.ring.next))

/-- Set and order are two sides of one record, which holds as many addresses as there is room for. -/
structure OneRecord (l : RecentIPs) : Prop where
  inverse : ∀ ip i, l.set ip = some i ↔ ip.isValid = true ∧ l.order i = ip
  bound : ∀ ips : List Addr, ips.Nodup → (∀ ip ∈ ips, l.contains ip = true ∧ ip.unmap = ip) → ips.length ≤ l.cap

def Remembers (l : RecentIPs) (calls : List Addr) : Prop := ∀ ip ∈ calls.reverse.take l.cap, l.contains ip = true

theorem valid_iff_not_zero (ip : Addr) : ip.isValid = true ↔ ip ≠ .zero := by
  cases ip <;> simp [Addr.isValid]

theorem fresh_held {l : RecentIPs} {ip : Addr} (fresh : Fresh l ip) :
    l.ring.index ip.unmap = none ∨ ∃ i, Held l.ring ip.unmap i 0 := by
  rcases fresh with absent | ⟨i, indexed, last⟩
  · left
    simpa [contains, set] using absent
  · right
    exact ⟨i, indexed, (congrArg Fin.val last).symm, Nat.zero_lt_of_lt i.isLt⟩

theorem one_record_of_paired {l : RecentIPs} (paired : Paired .zero l.ring) : OneRecord l where
  inverse := by
    intro ip i
    rw [valid_iff_not_zero]
    exact paired.index ip i
  bound := by
    intro ips apart inside
    refine indexed_bound paired apart fun ip member => ?_
    obtain ⟨contained, same⟩ := inside ip member
    rwa [contains, same] at contained

theorem remembers_of_recent {l : RecentIPs} {calls : List Addr}
    (recent : Recent l.ring (calls.reverse.map Addr.unmap)) : Remembers l calls := by
  intro ip member
  obtain ⟨m, small, here⟩ := List.mem_take_iff_getElem.1 member
  have found : (calls.reverse.map Addr.unmap)[m]? = some ip.unmap := by
    rw [List.getElem?_map, List.getElem?_eq_getElem (by omega), here]
    rfl
  obtain ⟨i, age, _, held⟩ := recent m ip.unmap found (by omega)
  simp [contains, set, held.index]

/-- The record is one for every run of add calls; it has the addresses of the last of them where
    each call finds its address new or last in the ring. -/
theorem recent_ips_remembered {N : Nat} (positive : 0 < N) {calls : List Addr} {l : RecentIPs}
    (valid : ∀ ip ∈ calls, ip.isValid = true) (reached : run step (newRecentIPs N positive) calls = some l) :
    l.cap = N ∧ OneRecord l ∧ (Along step Fresh (newRecentIPs N positive) calls → Remembers l calls) := by
  have invariant : l.cap = N ∧ Paired .zero l.ring ∧
      (Along step Fresh (newRecentIPs N positive) calls → Recent l.ring (calls.reverse.map Addr.unmap)) := by
    refine run_induct (P := fun calls l => l.cap = N ∧ Paired .zero l.ring ∧
      (Along step Fresh (newRecentIPs N positive) calls → Recent l.ring (calls.reverse.map Addr.unmap)))
      ⟨rfl, empty_paired _ positive, fun _ => recent_nil _⟩ ?_ (along_of_forall fun _ => valid) reached
    rintro calls l ip t before ⟨cap, paired, recent⟩ value taken
    cases taken
    have valid : ip.unmap ≠ .zero := by
      rw [← valid_iff_not_zero, Addr.unmap_valid]
      exact value
    refine ⟨cap, put_paired paired valid, fun along => ?_⟩
    obtain ⟨along, fresh⟩ := along_append.1 along
    rw [List.reverse_concat, List.map_cons]
    exact put_recent paired (recent along) (fresh_held (fresh l before).1)
  exact ⟨invariant.1, one_record_of_paired invariant.2.1, fun along => remembers_of_recent (invariant.2.2 along)⟩

def answer (n : Nat) : Addr := .v4 (BitVec.ofNat 32 n)

theorem three_answers_remembered :
    ∃ l, run step (newRecentIPs 2 (by decide)) [answer 1, answer 1, answer 2, answer 3] = some l ∧
      OneRecord l ∧ Remembers l [answer 1, answer 1, answer 2, answer 3] ∧ l.contains (answer 1) = false := by
  have along : Along step Fresh (newRecentIPs 2 (by decide)) [answer 1, answer 1, answer 2, answer 3] := by
    decide +kernel
  have valid : ∀ ip ∈ [answer 1, answer 1, answer 2, answer 3], ip.isValid = true := by decide
  obtain ⟨_, record, remembers⟩ := recent_ips_remembered (show 0 < 2 by decide) valid rfl
  exact ⟨_, rfl, record, remembers along, by decide +kernel⟩

/-- An address that is answered again while it is remembered keeps its old place, and is
    the first to go. -/
theorem repeated_answer_forgotten :
    ∃ calls l, run step (newRecentIPs 2 (by decide)) calls = some l ∧
      ∃ ip ∈ calls.reverse.take 2, l.contains ip = false :=
  ⟨[answer 1, answer 2, answer 1, answer 3], _, rfl, answer 1, by decide +kernel, by decide +kernel⟩

end RecentIPs

end FakeAddresses
