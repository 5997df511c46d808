import RootShell.ByteLines
import RootShell.Interleaving
import RootShell.RecencyCaches

/-!
Leaf certificates of the capture CA (certMinter in vpntunnel/certmint.go): a recency cache and,
for names that are being minted, one call that later callers wait for. Each section under the
mutex is one step, and so are the mint, the close of a call's channel and a receive from it.
-/
namespace CertMinting
open ByteLines Interleaving RecencyCaches

variable {n call : Nat} {name : Bytes}

def leafCacheSize : Nat := 64

section Model
variable {E C : Type}

/-- What `cert` and `err` of a mintCall hold once mint has returned, and whether `done`
    is closed. The name it was made for is not part of the source's record. -/
structure MintCall (E C : Type) where
  name : Bytes
  result : Option (Except E C)
  done : Bool

inductive Phase (E C : Type) where
  | idle
  | entering (name : Bytes)
  | waiting (name : Bytes) (call : Nat)
  | minting (name : Bytes) (call : Nat)
  | minted (name : Bytes) (call : Nat)
  | closing (name : Bytes) (call : Nat)
  | returned (name : Bytes) (result : Option (Except E C))

structure CertMinter (n : Nat) (E C : Type) where
  cache : Cache Bytes C
  inflight : AList fun _ : Bytes => Nat
  calls : Nat → MintCall E C
  fresh : Nat
  callers : Fin n → Phase E C
  mints : List (Bytes × Except E C)

def newCertMinter : CertMinter n E C where
  cache := Cache.empty
  inflight := ∅
  calls _ := ⟨[], none, false⟩
  fresh := 0
  callers _ := .idle
  mints := []

inductive Action (n : Nat) (E C : Type) where
  | certFor (i : Fin n) (name : Bytes)
  | enter (i : Fin n)
  | mint (i : Fin n) (result : Except E C)
  | publish (i : Fin n)
  | close (i : Fin n)
  | receive (i : Fin n)

namespace CertMinter
variable (m : CertMinter n E C) (i : Fin n)

def goTo (p : Phase E C) : CertMinter n E C := { m with callers := Function.update m.callers i p }

def enter (name : Bytes) : CertMinter n E C :=
  match m.cache.get name with
  | (some cert, cache) => { m with cache := cache }.goTo i (.returned name (some (.ok cert)))
  | (none, _) =>
    match m.inflight.lookup name with
    | some call => m.goTo i (.waiting name call)
    | none =>
      { m with
        inflight := m.inflight.insert name m.fresh
        calls := Function.update m.calls m.fresh ⟨name, none, false⟩
        fresh := m.fresh + 1 }.goTo i (.minting name m.fresh)

def mint (name : Bytes) (call : Nat) (result : Except E C) : CertMinter n E C :=
  { m with
    calls := Function.update m.calls call { m.calls call with result := some result }
    mints := (name, result) :: m.mints }.goTo i (.minted name call)

def publish (name : Bytes) (call : Nat) : CertMinter n E C :=
  let cache := match (m.calls call).result with
    | some (.ok cert) => m.cache.add leafCacheSize name cert
    | _ => m.cache
  { m with inflight := m.inflight.erase name, cache := cache }.goTo i (.closing name call)

def close (name : Bytes) (call : Nat) : CertMinter n E C :=
  { m with calls := Function.update m.calls call { m.calls call with done := true } }.goTo i
    (.returned name (m.calls call).result)

def step (m : CertMinter n E C) : Action n E C → Option (CertMinter n E C)
  | .certFor i name =>
    match m.callers i with
    | .idle => some (m.goTo i (.entering name))
    | .returned _ _ => some (m.goTo i (.entering name))
    | _ => none
  | .enter i =>
    match m.callers i with
    | .entering name => some (m.enter i name)
    | _ => none
  | .mint i result =>
    match m.callers i with
    | .minting name call => some (m.mint i name call result)
    | _ => none
  | .publish i =>
    match m.callers i with
    | .minted name call => some (m.publish i name call)
    | _ => none
  | .close i =>
    match m.callers i with
    | .closing name call => some (m.close i name call)
    | _ => none
  | .receive i =>
    match m.callers i with
    | .waiting name call =>
      if (m.calls call).done then some (m.goTo i (.returned name (m.calls call).result)) else none
    | _ => none

end CertMinter

end Model

section Invariant
variable {E C : Type}

def Phase.Busy : Phase E C → Bytes → Nat → Prop
  | .minting name call, name', call' => name = name' ∧ call = call'
  | .minted name call, name', call' => name = name' ∧ call = call'
  | _, _, _ => False

def Phase.Owns : Phase E C → Nat → Prop
  | .minting _ call, call' => call = call'
  | .minted _ call, call' => call = call'
  | .closing _ call, call' => call = call'
  | _, _ => False

namespace CertMinter

def Attended (m : CertMinter n E C) (call : Nat) : Prop := (m.calls call).done = true ∨ ∃ i, (m.callers i).Owns call

def Made (m : CertMinter n E C) (name : Bytes) (call : Nat) : Prop := call < m.fresh ∧ (m.calls call).name = name

def PhaseOk (m : CertMinter n E C) : Phase E C → Prop
  | .idle => True
  | .entering _ => True
  | .waiting name call => m.Made name call ∧ m.Attended call
  | .minting name call => m.Made name call ∧ m.inflight.lookup name = some call
  | .minted name call => m.Made name call ∧ m.inflight.lookup name = some call ∧ (m.calls call).result ≠ none
  | .closing name call => m.Made name call ∧ (m.calls call).result ≠ none
  | .returned name result => ∃ r, result = some r ∧ (name, r) ∈ m.mints

structure Sound (m : CertMinter n E C) : Prop where
  coupled : m.cache.Coupled
  fits : m.cache.entries.length ≤ leafCacheSize
  cached : ∀ name cert, (name, cert) ∈ m.cache.entries → (name, .ok cert) ∈ m.mints
  flights : ∀ name call, m.inflight.lookup name = some call →
    m.cache.items.lookup name = none ∧ ∃ i, (m.callers i).Busy name call
  results : ∀ call r, (m.calls call).result = some r → ((m.calls call).name, r) ∈ m.mints
  closed : ∀ call, (m.calls call).done = true → (m.calls call).result ≠ none
  phases : ∀ i, m.PhaseOk (m.callers i)
  single : ∀ i j name call call', (m.callers i).Busy name call → (m.callers j).Busy name call' → i = j

theorem busy_owns {p : Phase E C} (busy : p.Busy name call) : p.Owns call := by
  cases p with
  | minting => exact busy.2
  | minted => exact busy.2
  | _ => exact False.elim busy

theorem busy_ok {m : CertMinter n E C} {p : Phase E C} (busy : p.Busy name call)
    (ok : m.PhaseOk p) : m.Made name call ∧ m.inflight.lookup name = some call := by
  cases p with
  | minting =>
    obtain ⟨rfl, rfl⟩ := busy
    exact ok
  | minted =>
    obtain ⟨rfl, rfl⟩ := busy
    exact ⟨ok.1, ok.2.1⟩
  | _ => exact False.elim busy

theorem new_sound : Sound (newCertMinter : CertMinter n E C) where
  coupled := Cache.empty_coupled
  fits := Nat.zero_le _
  cached := by simp [newCertMinter, Cache.empty, Cache.entries, Elements.empty]
  flights := by simp [newCertMinter]
  results := by simp [newCertMinter]
  closed := by simp [newCertMinter]
  phases := fun _ => trivial
  single := fun _ _ _ _ _ busy => False.elim busy

structure Extends (m t : CertMinter n E C) : Prop where
  fresh : m.fresh ≤ t.fresh
  names : ∀ call, call < m.fresh → (t.calls call).name = (m.calls call).name
  results : ∀ call, call < m.fresh → (m.calls call).result ≠ none → (t.calls call).result ≠ none
  closed : ∀ call, call < m.fresh → (m.calls call).done = true → (t.calls call).done = true
  mints : m.mints ⊆ t.mints

variable {m t : CertMinter n E C} {i : Fin n} {p : Phase E C}

theorem made_kept (extend : Extends m t) (made : m.Made name call) : t.Made name call :=
  ⟨Nat.lt_of_lt_of_le made.1 extend.fresh, (extend.names call made.1).trans made.2⟩

theorem attended_kept (extend : Extends m t) (moved : t.callers = Function.update m.callers i p)
    (owner : ∀ call, (m.callers i).Owns call → p.Owns call ∨ (t.calls call).done = true)
    (known : call < m.fresh) (attended : m.Attended call) : t.Attended call := by
  rcases attended with closed | ⟨j, owns⟩
  · exact Or.inl (extend.closed call known closed)
  · by_cases same : j = i
    · subst same
      rcases owner call owns with still | closed
      · exact Or.inr ⟨j, by rw [moved, Function.update_self]; exact still⟩
      · exact Or.inl closed
    · exact Or.inr ⟨j, by rw [moved, Function.update_of_ne same]; exact owns⟩

theorem phases_kept (sound : Sound m) (extend : Extends m t) (moved : t.callers = Function.update m.callers i p)
    (owner : ∀ call, (m.callers i).Owns call → p.Owns call ∨ (t.calls call).done = true)
    (flights : ∀ j, j ≠ i → ∀ name call, (m.callers j).Busy name call → t.inflight.lookup name = some call)
    (self : t.PhaseOk p) (j : Fin n) : t.PhaseOk (t.callers j) := by
  rw [moved]
  by_cases same : j = i
  · rw [same, Function.update_self]
    exact self
  · rw [Function.update_of_ne same]
    have ok := sound.phases j
    have flight := flights j same
    cases phase : m.callers j with
    | idle => trivial
    | entering => trivial
    | waiting name call =>
      rw [phase] at ok
      exact ⟨made_kept extend ok.1, attended_kept extend moved owner ok.1.1 ok.2⟩
    | minting name call =>
      rw [phase] at ok flight
      exact ⟨made_kept extend ok.1, flight name call ⟨rfl, rfl⟩⟩
    | minted name call =>
      rw [phase] at ok flight
      exact ⟨made_kept extend ok.1, flight name call ⟨rfl, rfl⟩, extend.results call ok.1.1 ok.2.2⟩
    | closing name call =>
      rw [phase] at ok
      exact ⟨made_kept extend ok.1, extend.results call ok.1.1 ok.2⟩
    | returned name result =>
      rw [phase] at ok
      obtain ⟨r, eq, member⟩ := ok
      exact ⟨r, eq, extend.mints member⟩

theorem single_kept (sound : Sound m) (moved : t.callers = Function.update m.callers i p)
    (self : ∀ j, j ≠ i → ∀ name call call', p.Busy name call → ¬ (m.callers j).Busy name call') :
    ∀ j k name call call', (t.callers j).Busy name call → (t.callers k).Busy name call' → j = k := by
  intro j k name call call' first second
  rw [moved] at first second
  by_cases here : j = i
  · by_cases there : k = i
    · rw [here, there]
    · rw [here, Function.update_self] at first
      rw [Function.update_of_ne there] at second
      exact absurd second (self k there name call call' first)
  · rw [Function.update_of_ne here] at first
    by_cases there : k = i
    · rw [there, Function.update_self] at second
      exact absurd first (self j here name call' call second)
    · rw [Function.update_of_ne there] at second
      exact sound.single j k name call call' first second

theorem flights_kept (sound : Sound m) (moved : t.callers = Function.update m.callers i p)
    (inflight : t.inflight = m.inflight) (items : t.cache.items = m.cache.items)
    (busy : ∀ name call, (m.callers i).Busy name call → p.Busy name call) :
    ∀ name call, t.inflight.lookup name = some call →
      t.cache.items.lookup name = none ∧ ∃ j, (t.callers j).Busy name call := by
  intro name call flight
  rw [inflight] at flight
  obtain ⟨absent, j, minting⟩ := sound.flights name call flight
  refine ⟨by rw [items, absent], j, ?_⟩
  rw [moved]
  by_cases same : j = i
  · subst same
    rw [Function.update_self]
    exact busy name call minting
  · rw [Function.update_of_ne same]
    exact minting

section Steps

theorem extends_same (fresh : t.fresh = m.fresh) (calls : t.calls = m.calls) (mints : t.mints = m.mints) :
    Extends m t := by
  refine ⟨Nat.le_of_eq fresh.symm, ?_, ?_, ?_, ?_⟩
  · exact fun call _ => by rw [calls]
  · exact fun call _ filled => by rwa [calls]
  · exact fun call _ closed => by rwa [calls]
  · rw [mints]
    exact fun _ => id

theorem busy_flight (sound : Sound m) (busy : (m.callers i).Busy name call) : m.inflight.lookup name = some call :=
  (busy_ok busy (sound.phases i)).2

theorem moved_sound (sound : Sound m) {cache : Cache Bytes C} (coupled : cache.Coupled)
    (fits : cache.entries.length ≤ leafCacheSize)
    (cached : ∀ name cert, (name, cert) ∈ cache.entries → (name, .ok cert) ∈ m.mints)
    (items : cache.items = m.cache.items) (free : ∀ call, ¬ (m.callers i).Owns call)
    (idle : ∀ name call, ¬ p.Busy name call) (ok : ({ m with cache := cache }.goTo i p).PhaseOk p) :
    Sound ({ m with cache := cache }.goTo i p) where
  coupled := coupled
  fits := fits
  cached := cached
  flights := flights_kept sound rfl rfl items fun _ call busy => absurd (busy_owns busy) (free call)
  results := sound.results
  closed := sound.closed
  phases := phases_kept sound (extends_same rfl rfl rfl) rfl (fun call owns => absurd owns (free call))
    (fun _ _ _ _ busy => busy_flight (m := m) sound busy) ok
  single := single_kept sound rfl fun _ _ name call _ busy => absurd busy (idle name call)

theorem go_to_sound (sound : Sound m) (free : ∀ call, ¬ (m.callers i).Owns call)
    (idle : ∀ name call, ¬ p.Busy name call) (ok : (m.goTo i p).PhaseOk p) : Sound (m.goTo i p) :=
  moved_sound sound sound.coupled sound.fits sound.cached rfl free idle ok

theorem phase_free (phase : m.callers i = p) (free : ∀ call, ¬ p.Owns call) (call : Nat) :
    ¬ (m.callers i).Owns call := by
  rw [phase]
  exact free call

theorem hit_sound (sound : Sound m) {cert : C} {cache : Cache Bytes C}
    (phase : m.callers i = .entering name) (hit : m.cache.get name = (some cert, cache)) :
    Sound ({ m with cache := cache }.goTo i (.returned name (some (.ok cert)))) := by
  have items : cache.items = m.cache.items := by rw [← Cache.get_items m.cache name, hit]
  rcases Cache.get_spec (k := name) sound.coupled sound.fits with ⟨_, missed⟩ | ⟨v, member, got, coupled, entries⟩
  · rw [hit] at missed
    cases missed
  · rw [hit] at got coupled entries
    cases got
    refine moved_sound sound coupled ?_ ?_ items (phase_free phase fun _ => id) (fun _ _ => id)
      ⟨_, rfl, sound.cached _ _ member⟩
    · rw [show cache.entries = _ from entries]
      exact Cache.store_length ..
    · intro name' cert' inside
      rw [show cache.entries = _ from entries] at inside
      rcases Cache.mem_store inside with ⟨rfl, rfl⟩ | ⟨_, old⟩
      · exact sound.cached _ _ member
      · exact sound.cached _ _ old

theorem not_busy (sound : Sound m) (absent : m.inflight.lookup name = none) (j : Fin n) (call : Nat) :
    ¬ (m.callers j).Busy name call := by
  intro busy
  have flight := busy_flight sound busy
  rw [absent] at flight
  cases flight

theorem busy_other {j : Fin n} (busy : (m.callers j).Busy name call)
    (free : ∀ call, ¬ (m.callers i).Owns call) : j ≠ i := by
  rintro rfl
  exact free call (busy_owns busy)

theorem start_sound (sound : Sound m) (phase : m.callers i = .entering name)
    (missed : m.cache.items.lookup name = none) (absent : m.inflight.lookup name = none) :
    Sound ({ m with
      inflight := m.inflight.insert name m.fresh
      calls := Function.update m.calls m.fresh ⟨name, none, false⟩
      fresh := m.fresh + 1 }.goTo i (.minting name m.fresh)) where
  coupled := sound.coupled
  fits := sound.fits
  cached := sound.cached
  flights := by
    intro name' call flight
    by_cases same : name' = name
    · subst same
      have here : call = m.fresh := by
        have looked := flight.symm.trans (AList.lookup_insert m.inflight)
        exact Option.some.inj looked
      refine ⟨missed, i, ?_⟩
      rw [here]
      simp only [goTo, Function.update_self]
      exact ⟨rfl, rfl⟩
    · have old : m.inflight.lookup name' = some call := by
        rw [← flight]
        exact (AList.lookup_insert_ne same).symm
      obtain ⟨gone, j, busy⟩ := sound.flights name' call old
      refine ⟨gone, j, ?_⟩
      simp only [goTo, Function.update_of_ne (busy_other busy (phase_free phase fun _ => id))]
      exact busy
  results := by
    intro call r result
    simp only [goTo] at result ⊢
    by_cases same : call = m.fresh
    · subst same
      rw [Function.update_self] at result
      cases result
    · rw [Function.update_of_ne same] at result ⊢
      exact sound.results call r result
  closed := by
    intro call done
    simp only [goTo] at done ⊢
    by_cases same : call = m.fresh
    · subst same
      rw [Function.update_self] at done
      cases done
    · rw [Function.update_of_ne same] at done ⊢
      exact sound.closed call done
  phases := by
    have older : ∀ call, call < m.fresh → Function.update m.calls m.fresh ⟨name, none, false⟩ call = m.calls call :=
      fun call known => Function.update_of_ne (Nat.ne_of_lt known) ..
    refine phases_kept sound ⟨Nat.le_succ _, ?_, ?_, ?_, fun _ => id⟩ rfl ?_ ?_ ?_
    · exact fun call known => congrArg MintCall.name (older call known)
    · intro call known some
      simpa only [goTo, older call known] using some
    · intro call known closed
      simpa only [goTo, older call known] using closed
    · exact fun call owns => absurd owns (phase_free phase (fun _ => id) call)
    · intro j _ name' call busy
      refine (AList.lookup_insert_ne ?_).trans (busy_flight sound busy)
      rintro rfl
      exact not_busy sound absent j call busy
    · refine ⟨⟨Nat.lt_succ_self _, ?_⟩, AList.lookup_insert m.inflight⟩
      simp only [goTo, Function.update_self]
  single := by
    refine single_kept sound rfl ?_
    rintro j _ name' call call' ⟨rfl, _⟩ busy
    exact not_busy sound absent j call' busy

theorem enter_sound (sound : Sound m) (phase : m.callers i = .entering name) : Sound (m.enter i name) := by
  unfold enter
  split
  · rename_i cert cache hit
    exact hit_sound sound phase hit
  · rename_i cache missed
    split
    · rename_i call flight
      obtain ⟨_, j, busy⟩ := sound.flights name call flight
      have made := (busy_ok busy (sound.phases j)).1
      refine go_to_sound sound (phase_free phase fun _ => id) (fun _ _ => id) ⟨made, Or.inr ⟨j, ?_⟩⟩
      simp only [goTo, Function.update_of_ne (busy_other busy (phase_free phase fun _ => id))]
      exact busy_owns busy
    · rename_i absent
      refine start_sound sound phase ?_ absent
      rcases Cache.get_spec (k := name) sound.coupled sound.fits with ⟨gone, _⟩ | ⟨v, _, got, _⟩
      · rwa [Cache.mem_keys sound.coupled, Option.not_isSome_iff_eq_none] at gone
      · rw [missed] at got
        cases got

theorem field_kept {α β : Type} (f : Nat → α) (k : Nat) (a : α) (field : α → β) (same : field a = field (f k))
    (j : Nat) : field (Function.update f k a j) = field (f j) := by
  by_cases here : j = k
  · rw [here, Function.update_self, same]
  · rw [Function.update_of_ne here]

theorem mint_sound (sound : Sound m) (phase : m.callers i = .minting name call)
    (result : Except E C) : Sound (m.mint i name call result) := by
  have ok := sound.phases i
  rw [phase] at ok
  obtain ⟨made, flight⟩ := ok
  have names : ∀ c, ((m.mint i name call result).calls c).name = (m.calls c).name :=
    field_kept m.calls call _ MintCall.name rfl
  have closed : ∀ c, ((m.mint i name call result).calls c).done = (m.calls c).done :=
    field_kept m.calls call _ MintCall.done rfl
  have results : ∀ c, ((m.mint i name call result).calls c).result =
      if c = call then some result else (m.calls c).result := by
    intro c
    by_cases same : c = call
    · simp [mint, goTo, same]
    · simp [mint, goTo, same]
  have kept : ∀ c, (m.calls c).result ≠ none → ((m.mint i name call result).calls c).result ≠ none := by
    intro c some
    rw [results]
    split
    · simp
    · exact some
  constructor
  · exact sound.coupled
  · exact sound.fits
  · exact fun name' cert member => List.mem_cons_of_mem _ (sound.cached name' cert member)
  · refine flights_kept sound rfl rfl rfl ?_
    rw [phase]
    exact fun _ _ => id
  · intro c r found
    rw [results] at found
    rw [names]
    split at found
    · rename_i same
      cases found
      rw [same, made.2]
      exact List.mem_cons_self
    · exact List.mem_cons_of_mem _ (sound.results c r found)
  · intro c done
    rw [closed] at done
    exact kept c (sound.closed c done)
  · refine phases_kept sound ⟨Nat.le_refl _, fun c _ => names c, fun c _ => kept c, ?_, fun _ => List.mem_cons_of_mem _⟩
      rfl ?_ ?_ ?_
    · exact fun c _ done => (closed c).trans done
    · rw [phase]
      exact fun c owns => Or.inl owns
    · exact fun _ _ _ _ busy => busy_flight (m := m) sound busy
    · refine ⟨⟨made.1, (names call).trans made.2⟩, flight, ?_⟩
      rw [results, if_pos rfl]
      simp
  · refine single_kept sound rfl ?_
    rintro j other name' c c' ⟨rfl, rfl⟩ busy
    exact other (sound.single j i name c' call busy (by rw [phase]; exact ⟨rfl, rfl⟩))

theorem published_cache (sound : Sound m) (made : m.Made name call) (absent : m.cache.items.lookup name = none) :
    (m.publish i name call).cache.Coupled ∧ (m.publish i name call).cache.entries.length ≤ leafCacheSize ∧
      (∀ name' cert, (name', cert) ∈ (m.publish i name call).cache.entries → (name', .ok cert) ∈ m.mints) ∧
      ∀ name', name' ≠ name → m.cache.items.lookup name' = none →
        (m.publish i name call).cache.items.lookup name' = none := by
  simp only [publish, goTo]
  split
  · rename_i cert result
    obtain ⟨coupled, entries⟩ := Cache.add_spec (v := cert) leafCacheSize sound.coupled absent
    refine ⟨coupled, by rw [entries]; exact Cache.store_length .., ?_, ?_⟩
    · intro name' cert' member
      rw [entries] at member
      rcases Cache.mem_store member with ⟨rfl, rfl⟩ | ⟨_, old⟩
      · have minted := sound.results call _ result
        rwa [made.2] at minted
      · exact sound.cached name' cert' old
    · exact fun name' other gone => Cache.add_absent leafCacheSize sound.coupled absent other gone
  · exact ⟨sound.coupled, sound.fits, sound.cached, fun _ _ gone => gone⟩

theorem publish_sound (sound : Sound m) (phase : m.callers i = .minted name call) :
    Sound (m.publish i name call) := by
  have ok := sound.phases i
  rw [phase] at ok
  obtain ⟨made, flight, filled⟩ := ok
  obtain ⟨coupled, fits, cached, missing⟩ :=
    published_cache (i := i) sound made (sound.flights name call flight).1
  have others : ∀ j, j ≠ i → ∀ name' c, (m.callers j).Busy name' c → name' ≠ name := by
    rintro j other name' c minting rfl
    exact other (sound.single j i name' c call minting (by rw [phase]; exact ⟨rfl, rfl⟩))
  constructor
  · exact coupled
  · exact fits
  · exact cached
  · intro name' c found
    have different : name' ≠ name := by
      rintro rfl
      have looked : (m.inflight.erase name').lookup name' = some c := found
      rw [AList.lookup_erase] at looked
      cases looked
    have old : m.inflight.lookup name' = some c := (AList.lookup_erase_ne different).symm.trans found
    obtain ⟨gone, j, minting⟩ := sound.flights name' c old
    refine ⟨missing name' different gone, j, ?_⟩
    have other : j ≠ i := by
      rintro rfl
      rw [phase] at minting
      exact different minting.1.symm
    simp only [publish, goTo, Function.update_of_ne other]
    exact minting
  · exact sound.results
  · exact sound.closed
  · refine phases_kept sound (extends_same rfl rfl rfl) rfl ?_ ?_ ⟨made, filled⟩
    · rw [phase]
      exact fun c owns => Or.inl owns
    · intro j other name' c minting
      exact (AList.lookup_erase_ne (others j other name' c minting)).trans (busy_flight sound minting)
  · exact single_kept sound rfl fun _ _ _ _ _ busy => False.elim busy

theorem close_sound (sound : Sound m) (phase : m.callers i = .closing name call) : Sound (m.close i name call) := by
  have ok := sound.phases i
  rw [phase] at ok
  obtain ⟨made, some⟩ := ok
  have names : ∀ c, ((m.close i name call).calls c).name = (m.calls c).name :=
    field_kept m.calls call _ MintCall.name rfl
  have results : ∀ c, ((m.close i name call).calls c).result = (m.calls c).result :=
    field_kept m.calls call _ MintCall.result rfl
  have closed : ∀ c, ((m.close i name call).calls c).done = true ↔ c = call ∨ (m.calls c).done = true := by
    intro c
    by_cases same : c = call
    · simp [close, goTo, same]
    · simp [close, goTo, same]
  constructor
  · exact sound.coupled
  · exact sound.fits
  · exact sound.cached
  · refine flights_kept sound rfl rfl rfl ?_
    rw [phase]
    exact fun _ _ => False.elim
  · intro c r found
    rw [results] at found
    rw [names]
    exact sound.results c r found
  · intro c done
    rw [results]
    rcases (closed c).1 done with rfl | before
    · exact some
    · exact sound.closed c before
  · refine phases_kept sound ⟨Nat.le_refl _, fun c _ => names c, ?_, ?_, fun _ => id⟩ rfl ?_ ?_ ?_
    · intro c _ filled
      rwa [results]
    · exact fun c _ done => (closed c).2 (Or.inr done)
    · rw [phase]
      exact fun c owns => Or.inr ((closed c).2 (Or.inl (Eq.symm owns)))
    · exact fun _ _ _ _ busy => busy_flight (m := m) sound busy
    · obtain ⟨r, result⟩ := Option.ne_none_iff_exists'.1 some
      have minted := sound.results call r result
      rw [made.2] at minted
      exact ⟨r, result, minted⟩
  · exact single_kept sound rfl fun _ _ _ _ _ busy => False.elim busy

theorem receive_sound (sound : Sound m) (phase : m.callers i = .waiting name call)
    (done : (m.calls call).done = true) : Sound (m.goTo i (.returned name (m.calls call).result)) := by
  have ok := sound.phases i
  rw [phase] at ok
  obtain ⟨r, result⟩ := Option.ne_none_iff_exists'.1 (sound.closed call done)
  have minted := sound.results call r result
  rw [ok.1.2] at minted
  exact go_to_sound sound (phase_free phase fun _ => id) (fun _ _ => id) ⟨r, result, minted⟩

theorem step_sound (sound : Sound m) {a : Action n E C} (taken : m.step a = some t) : Sound t := by
  cases a with
  | certFor i name =>
    cases phase : m.callers i with
    | idle =>
      simp only [step, phase, Option.some.injEq] at taken
      subst taken
      exact go_to_sound sound (phase_free phase fun _ => id) (fun _ _ => id) trivial
    | returned _ _ =>
      simp only [step, phase, Option.some.injEq] at taken
      subst taken
      exact go_to_sound sound (phase_free phase fun _ => id) (fun _ _ => id) trivial
    | _ => simp [step, phase] at taken
  | enter i =>
    cases phase : m.callers i with
    | entering name =>
      simp only [step, phase, Option.some.injEq] at taken
      exact taken ▸ enter_sound sound phase
    | _ => simp [step, phase] at taken
  | mint i result =>
    cases phase : m.callers i with
    | minting name call =>
      simp only [step, phase, Option.some.injEq] at taken
      exact taken ▸ mint_sound sound phase result
    | _ => simp [step, phase] at taken
  | publish i =>
    cases phase : m.callers i with
    | minted name call =>
      simp only [step, phase, Option.some.injEq] at taken
      exact taken ▸ publish_sound sound phase
    | _ => simp [step, phase] at taken
  | close i =>
    cases phase : m.callers i with
    | closing name call =>
      simp only [step, phase, Option.some.injEq] at taken
      exact taken ▸ close_sound sound phase
    | _ => simp [step, phase] at taken
  | receive i =>
    cases phase : m.callers i with
    | waiting name call =>
      simp only [step, phase] at taken
      obtain ⟨done, rfl⟩ := guarded taken
      exact receive_sound sound phase done
    | _ => simp [step, phase] at taken

end Steps

section Returning

def Asks : Phase E C → Bytes → Prop
  | .entering name, name' => name = name'
  | .waiting name _, name' => name = name'
  | .minting name _, name' => name = name'
  | .minted name _, name' => name = name'
  | .closing name _, name' => name = name'
  | _, _ => False

def Finishes (m : CertMinter n E C) (i : Fin n) (name : Bytes) (call : Nat) : Prop :=
  ∃ as t result, run step m as = some t ∧ t.callers i = .returned name result ∧ (t.calls call).done = true ∧
    ∀ j, j ≠ i → t.callers j = m.callers j

theorem go_to_self (m : CertMinter n E C) (i : Fin n) (p : Phase E C) : (m.goTo i p).callers i = p :=
  Function.update_self ..

theorem go_to_other (m : CertMinter n E C) {i j : Fin n} (other : j ≠ i) (p : Phase E C) :
    (m.goTo i p).callers j = m.callers j :=
  Function.update_of_ne other ..

theorem finishes_after {a : Action n E C} (taken : m.step a = some t)
    (others : ∀ j, j ≠ i → t.callers j = m.callers j) (rest : Finishes t i name call) : Finishes m i name call := by
  obtain ⟨as, last, result, reached, returned, done, same⟩ := rest
  refine ⟨a :: as, last, result, ?_, returned, done, fun j other => (same j other).trans (others j other)⟩
  rw [run_cons, taken]
  exact reached

theorem closing_finishes (phase : m.callers i = .closing name call) : Finishes m i name call := by
  refine ⟨[.close i], m.close i name call, _, ?_, go_to_self .., ?_, fun j other => go_to_other _ other _⟩
  · simp [run_cons, step, phase]
  · simp [close, goTo]

theorem minted_finishes (phase : m.callers i = .minted name call) : Finishes m i name call := by
  refine finishes_after (a := .publish i) (t := m.publish i name call) ?_ (fun j other => go_to_other _ other _)
    (closing_finishes (go_to_self ..))
  simp [step, phase]

theorem minting_finishes (result : Except E C) (phase : m.callers i = .minting name call) :
    Finishes m i name call := by
  refine finishes_after (a := .mint i result) (t := m.mint i name call result) ?_
    (fun j other => go_to_other _ other _) (minted_finishes (go_to_self ..))
  simp [step, phase]

theorem owner_finishes (result : Except E C) (owns : (m.callers i).Owns call) : ∃ name, Finishes m i name call := by
  cases phase : m.callers i with
  | minting name c =>
    rw [phase] at owns
    cases owns
    exact ⟨name, minting_finishes result phase⟩
  | minted name c =>
    rw [phase] at owns
    cases owns
    exact ⟨name, minted_finishes phase⟩
  | closing name c =>
    rw [phase] at owns
    cases owns
    exact ⟨name, closing_finishes phase⟩
  | _ =>
    rw [phase] at owns
    exact False.elim owns

theorem receive_returns (phase : m.callers i = .waiting name call) (done : (m.calls call).done = true) :
    ∃ t result, run step m [.receive i] = some t ∧ t.callers i = .returned name result := by
  refine ⟨m.goTo i (.returned name (m.calls call).result), _, ?_, go_to_self ..⟩
  simp [run_cons, step, phase, done]

theorem waiting_returns (sound : Sound m) (result : Except E C) (phase : m.callers i = .waiting name call) :
    ∃ as t r, run step m as = some t ∧ t.callers i = .returned name r := by
  have ok := sound.phases i
  rw [phase] at ok
  rcases ok.2 with done | ⟨j, owns⟩
  · obtain ⟨t, r, reached, returned⟩ := receive_returns phase done
    exact ⟨_, t, r, reached, returned⟩
  · have other : i ≠ j := by
      rintro rfl
      rw [phase] at owns
      exact owns
    obtain ⟨name', as, t, _, reached, _, done, same⟩ := owner_finishes result owns
    obtain ⟨last, r, received, returned⟩ := receive_returns ((same i other).trans phase) done
    refine ⟨as ++ [.receive i], last, r, ?_, returned⟩
    rw [run_append, reached]
    exact received

theorem caller_returns (sound : Sound m) (result : Except E C) (asks : Asks (m.callers i) name) :
    ∃ as t r, run step m as = some t ∧ t.callers i = .returned name r := by
  have finish : ∀ {m : CertMinter n E C} {call : Nat}, Finishes m i name call →
      ∃ as t r, run step m as = some t ∧ t.callers i = .returned name r := by
    rintro m call ⟨as, t, r, reached, returned, _⟩
    exact ⟨as, t, r, reached, returned⟩
  cases phase : m.callers i with
  | entering name' =>
    rw [phase] at asks
    cases asks
    have taken : m.step (.enter i) = some (m.enter i name) := by simp [step, phase]
    have sound' := enter_sound sound phase
    have rest : ∃ as t r, run step (m.enter i name) as = some t ∧ t.callers i = .returned name r := by
      unfold enter at sound' ⊢
      split
      · exact ⟨[], _, _, rfl, go_to_self ..⟩
      · rename_i missed
        simp only [missed] at sound'
        split
        · rename_i flight
          simp only [flight] at sound'
          exact waiting_returns sound' result (go_to_self ..)
        · exact finish (minting_finishes result (go_to_self ..))
    obtain ⟨as, t, r, reached, returned⟩ := rest
    exact ⟨.enter i :: as, t, r, by rw [run_cons, taken]; exact reached, returned⟩
  | waiting name' call =>
    rw [phase] at asks
    cases asks
    exact waiting_returns sound result phase
  | minting name' call =>
    rw [phase] at asks
    cases asks
    exact finish (minting_finishes result phase)
  | minted name' call =>
    rw [phase] at asks
    cases asks
    exact finish (minted_finishes phase)
  | closing name' call =>
    rw [phase] at asks
    cases asks
    exact finish (closing_finishes phase)
  | idle =>
    rw [phase] at asks
    exact False.elim asks
  | returned _ _ =>
    rw [phase] at asks
    exact False.elim asks

end Returning

structure Consistent (m : CertMinter n E C) : Prop where
  apart : ∀ name, (m.inflight.lookup name).isSome = true → m.cache.items.lookup name = none
  single : ∀ i j name call call', m.callers i = .minting name call → m.callers j = .minting name call' → i = j
  names : (m.cache.entries.map Prod.fst).Nodup
  matched : m.cache.items.keys.Perm (m.cache.entries.map Prod.fst) ∧ m.cache.entries.length = m.cache.lru.len
  elements : ∀ name e, m.cache.items.lookup name = some e ↔
    e ∈ m.cache.lru.order ∧ ∃ cert, m.cache.lru.value e = some (name, cert)
  bound : m.cache.lru.len ≤ leafCacheSize
  results : ∀ i name result, m.callers i = .returned name result → ∃ r, result = some r ∧ (name, r) ∈ m.mints
  returns : ∀ (_ : Except E C) i name, Asks (m.callers i) name →
    ∃ more t result, run step m more = some t ∧ t.callers i = .returned name result

theorem cert_minter_consistent {as : List (Action n E C)} {m : CertMinter n E C}
    (reached : run step newCertMinter as = some m) : Consistent m := by
  have sound : Sound m := run_invariant new_sound (fun _ _ _ sound taken => step_sound sound taken) reached
  have length := Cache.entries_length sound.coupled
  constructor
  · intro name flying
    obtain ⟨call, flight⟩ := Option.isSome_iff_exists.1 flying
    exact (sound.flights name call flight).1
  · intro i j name call call' first second
    refine sound.single i j name call call' ?_ ?_
    · rw [first]
      exact ⟨rfl, rfl⟩
    · rw [second]
      exact ⟨rfl, rfl⟩
  · exact Cache.keys_nodup sound.coupled
  · exact ⟨Cache.items_perm sound.coupled, length⟩
  · exact fun _ _ => Cache.item_iff sound.coupled
  · exact length ▸ sound.fits
  · intro i name result phase
    have ok := sound.phases i
    rwa [phase] at ok
  · exact fun result i name asks => caller_returns sound result asks

theorem shared_mint_consistent :
    ∃ (i j : Fin 2) (m : CertMinter 2 Unit Nat), i ≠ j ∧
      run step newCertMinter [.certFor i [97], .certFor j [97], .enter i, .enter j, .mint i (.ok 7), .publish i,
        .close i, .receive j] = some m ∧ Consistent m ∧ m.mints.length = 1 := by
  have ran : ∃ i j : Fin 2, i ≠ j ∧ ((run step (newCertMinter : CertMinter 2 Unit Nat)
      [.certFor i [97], .certFor j [97], .enter i, .enter j, .mint i (.ok 7), .publish i, .close i,
        .receive j]).map fun m => m.mints.length) = some 1 := by
    decide +kernel
  obtain ⟨i, j, other, logged⟩ := ran
  obtain ⟨m, reached, one⟩ := Option.map_eq_some_iff.1 logged
  exact ⟨i, j, m, other, reached, cert_minter_consistent reached, one⟩

end CertMinter

end Invariant

end CertMinting
