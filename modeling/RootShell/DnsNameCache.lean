import RootShell.RecencyCaches
import RootShell.RoutingRules

/-!
The names behind resolved addresses (vpntunnel/dnscache.go), a recency cache keyed by the
address after Unmap.
-/
namespace DnsNameCache
open ByteLines AddressPrefixes RecencyCaches RoutingRules

def dnsCacheSize : Nat := 2048

abbrev DnsCache := Cache Addr Bytes

def newDNSCache : DnsCache := Cache.empty

def put (c : DnsCache) (addr : Addr) (name : Bytes) : DnsCache := Cache.put dnsCacheSize c addr.unmap name

section Lookups
variable (net : AddressTexts)

/-- The receiver may be nil. -/
def lookup (c : Option DnsCache) (ip : Bytes) : Bytes × Option DnsCache :=
  match c with
  | none => ([], none)
  | some c =>
    match net.parseAddr ip with
    | none => ([], some c)
    | some addr => ((c.get addr.unmap).1.getD [], some (c.get addr.unmap).2)

inductive Call where
  | put (addr : Addr) (name : Bytes)
  | lookup (ip : Bytes)

def call (c : DnsCache) : Call → DnsCache
  | .put addr name => put c addr name
  | .lookup ip => (lookup net (some c) ip).2.getD c

def calls (history : List Call) : DnsCache := history.foldl (call net) newDNSCache

def request : Call → Option (Op Addr Bytes)
  | .put addr name => some (.put addr.unmap name)
  | .lookup ip => (net.parseAddr ip).map fun addr => .get addr.unmap

def past (history : List Call) : Trace Addr Bytes := Trace.run dnsCacheSize (history.filterMap (request net))

theorem calls_past (history : List Call) : (past net history).cache = calls net history := by
  suffices steps : ∀ t : Trace Addr Bytes,
      ((history.filterMap (request net)).foldl (Trace.step dnsCacheSize) t).cache =
        history.foldl (call net) t.cache by
    exact steps ⟨Cache.empty, [], []⟩
  induction history with
  | nil => exact fun t => rfl
  | cons made history ih =>
    intro t
    cases made with
    | put addr name => exact ih _
    | lookup ip =>
      cases parsed : net.parseAddr ip with
      | none =>
        have none : request net (.lookup ip) = none := by simp [request, parsed]
        rw [List.filterMap_cons_none none, ih, List.foldl_cons]
        simp [call, lookup, parsed]
      | some addr =>
        have some : request net (.lookup ip) = some (.get addr.unmap) := by simp [request, parsed]
        rw [List.filterMap_cons_some some, List.foldl_cons, ih, List.foldl_cons]
        simp [call, lookup, parsed, Trace.step]

/-- The name an address has by its history: the one put last, unless as many other
    addresses have been used since its own last use as the cache holds. -/
def nameOf (t : Trace Addr Bytes) (addr : Addr) : Bytes :=
  if addr ∈ t.uses ∧ (t.uses.takeWhile (· ≠ addr)).dedup.length < dnsCacheSize then (t.lastPut addr).getD [] else []

theorem tracked_name {t : Trace Addr Bytes} (tracked : Trace.Tracked dnsCacheSize t) (addr : Addr) :
    (t.cache.get addr).1.getD [] = nameOf t addr := by
  rw [Trace.tracked_get tracked, nameOf]
  split <;> rfl

/-- Map and list hold the same addresses, no more than the cache has room for, and a
    lookup finds what the history says. -/
theorem dns_cache_recency (history : List Call) :
    let c := calls net history
    c.items.keys.Perm (c.entries.map Prod.fst) ∧ (c.entries.map Prod.fst).Nodup ∧
      c.entries.length = c.lru.len ∧ c.lru.len ≤ dnsCacheSize ∧ (past net history).cache = c ∧
      ∀ ip, (lookup net (some c) ip).1 =
        (net.parseAddr ip).elim [] fun addr => nameOf (past net history) addr.unmap := by
  intro c
  have tracked : Trace.Tracked dnsCacheSize (past net history) := Trace.tracked_run _ _
  have same : (past net history).cache = c := calls_past net history
  have coupled : c.Coupled := same ▸ tracked.coupled
  have fits : c.entries.length ≤ dnsCacheSize := same ▸ Trace.tracked_fits tracked
  have length := Cache.entries_length coupled
  refine ⟨Cache.items_perm coupled, Cache.keys_nodup coupled, length, length ▸ fits, same, fun ip => ?_⟩
  unfold lookup
  cases net.parseAddr ip with
  | none => rfl
  | some addr =>
    have found := tracked_name tracked addr.unmap
    rw [same] at found
    exact found

example :
    let named := put newDNSCache (.v6 0xffff01020304#128 []) (text "a.example")
    (lookup quadTexts (some named) (text "1.2.3.4")).1 = text "a.example" := by decide +kernel

end Lookups

end DnsNameCache
