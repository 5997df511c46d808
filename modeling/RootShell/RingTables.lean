import Mathlib.Data.List.OfFn
import Mathlib.Data.List.Perm.Subperm
import Mathlib.Logic.Function.Basic

/-!
A fixed ring of slots with an index from values to slots. A value that is indexed stays
where it is; a new one takes the next slot and drops the value it finds there. A slot that
has never been taken holds the blank value.
-/
namespace RingTables
variable {α : Type} {n age k i : Nat}

structure Ring (α : Type) (n : Nat) where
  next : Fin n
  slots : Fin n → α
  index : α → Option (Fin n)

def following (i : Fin n) : Fin n := ⟨(i.val + 1) % n, Nat.mod_lt _ (Nat.zero_lt_of_lt i.isLt)⟩

def empty (blank : α) (positive : 0 < n) : Ring α n where
  next := ⟨0, positive⟩
  slots _ := blank
  index _ := none

structure Filled (blank : α) (r : Ring α n) (k : Nat) : Prop where
  next : r.next.val = k % n
  slots : ∀ i, r.slots i ≠ blank ↔ i.val < k

theorem empty_filled (blank : α) (positive : 0 < n) : Filled blank (empty blank positive) 0 where
  next := (Nat.zero_mod n).symm
  slots := by simp [empty]

variable [DecidableEq α]

def take (blank : α) (r : Ring α n) (a : α) : Ring α n :=
  let old := r.slots r.next
  { next := following r.next
    slots := Function.update r.slots r.next a
    index := Function.update (if old = blank then r.index else Function.update r.index old none) a
      (some r.next) }

def put (blank : α) (r : Ring α n) (a : α) : Ring α n :=
  match r.index a with
  | some _ => r
  | none => take blank r a

def puts (blank : α) (r : Ring α n) (as : List α) : Ring α n := as.foldl (put blank) r

def taken (blank : α) : Ring α n → List α → Nat
  | _, [] => 0
  | r, a :: as => (if (r.index a).isSome then 0 else 1) + taken blank (put blank r a) as

variable {a : α}

theorem take_filled {blank : α} {r : Ring α n} (filled : Filled blank r k)
    (value : a ≠ blank) : Filled blank (take blank r a) (k + 1) where
  next := by simp [take, following, filled.next]
  slots := by
    intro i
    by_cases here : i = r.next
    · have reached : i.val ≤ k := by
        rw [here, filled.next]
        exact Nat.mod_le k n
      simp only [take, here, Function.update_self]
      exact iff_of_true value (by rw [← here]; omega)
    · have apart : i.val ≠ k := by
        intro same
        apply here
        apply Fin.ext
        rw [filled.next, ← same, Nat.mod_eq_of_lt i.isLt]
      simp only [take, Function.update_of_ne here, filled.slots i]
      omega

variable {as : List α}

theorem puts_filled {blank : α} (values : blank ∉ as) {r : Ring α n}
    (filled : Filled blank r k) : Filled blank (puts blank r as) (k + taken blank r as) := by
  induction as generalizing r k with
  | nil => exact filled
  | cons a as ih =>
    rw [List.mem_cons, not_or] at values
    cases indexed : r.index a with
    | some i =>
      have same : put blank r a = r := by simp [put, indexed]
      simpa [puts, taken, indexed, same] using ih values.2 filled
    | none =>
      have new : put blank r a = take blank r a := by simp [put, indexed]
      have rest := ih values.2 (take_filled filled (Ne.symm values.1))
      simpa [puts, taken, indexed, new, Nat.add_assoc] using rest

section Pairing
variable {blank : α} {r : Ring α n}

structure Paired (blank : α) (r : Ring α n) : Prop where
  index : ∀ a i, r.index a = some i ↔ a ≠ blank ∧ r.slots i = a

omit [DecidableEq α] in
theorem empty_paired (blank : α) (positive : 0 < n) : Paired blank (empty blank positive) := by
  refine ⟨fun a i => iff_of_false (by simp [empty]) ?_⟩
  rintro ⟨value, same⟩
  exact value same.symm

theorem take_slots (r : Ring α n) (a : α) (i : Fin n) :
    (take blank r a).slots i = if i = r.next then a else r.slots i := by
  by_cases here : i = r.next <;> simp [take, here]

theorem take_index (r : Ring α n) (a b : α) :
    (take blank r a).index b =
      if b = a then some r.next else if b ≠ blank ∧ r.slots r.next = b then none else r.index b := by
  by_cases same : b = a
  · simp [take, same]
  · rw [if_neg same]
    simp only [take, Function.update_of_ne same]
    by_cases free : r.slots r.next = blank
    · rw [if_pos free, if_neg]
      rintro ⟨value, here⟩
      exact value (here.symm.trans free)
    · rw [if_neg free]
      by_cases old : b = r.slots r.next
      · subst old
        simp [free]
      · rw [Function.update_of_ne old, if_neg]
        rintro ⟨_, here⟩
        exact old here.symm

theorem take_paired (paired : Paired blank r) (new : r.index a = none) (value : a ≠ blank) :
    Paired blank (take blank r a) := by
  refine ⟨fun b i => ?_⟩
  rw [take_index, take_slots]
  by_cases same : b = a
  · subst same
    rw [if_pos rfl]
    by_cases here : i = r.next
    · simp [here, value]
    · rw [if_neg here]
      refine iff_of_false (fun found => here (Option.some.inj found).symm) fun held => ?_
      rw [(paired.index b i).2 held] at new
      cases new
  · rw [if_neg same]
    by_cases old : b ≠ blank ∧ r.slots r.next = b
    · rw [if_pos old]
      refine iff_of_false (by simp) ?_
      rintro ⟨_, held⟩
      split at held
      · exact same held.symm
      · rename_i other
        have both := ((paired.index b i).2 ⟨old.1, held⟩).symm.trans ((paired.index b r.next).2 old)
        exact other (Option.some.inj both)
    · rw [if_neg old, paired.index b i]
      refine and_congr_right fun filled => ?_
      split
      · rename_i here
        refine iff_of_false (fun held => old ⟨filled, ?_⟩) (Ne.symm same)
        rw [← here, held]
      · rfl

theorem put_paired (paired : Paired blank r) (value : a ≠ blank) : Paired blank (put blank r a) := by
  unfold put
  split
  · exact paired
  · rename_i new
    exact take_paired paired new value

theorem puts_paired (values : blank ∉ as) (paired : Paired blank r) : Paired blank (puts blank r as) := by
  induction as generalizing r with
  | nil => exact paired
  | cons a as ih =>
    rw [List.mem_cons, not_or] at values
    exact ih values.2 (put_paired paired (Ne.symm values.1))

omit [DecidableEq α] in
theorem indexed_bound (paired : Paired blank r) (apart : as.Nodup)
    (indexed : ∀ a ∈ as, (r.index a).isSome = true) : as.length ≤ n := by
  have inside : as ⊆ List.ofFn r.slots := by
    intro a member
    obtain ⟨i, found⟩ := Option.isSome_iff_exists.1 (indexed a member)
    exact List.mem_ofFn.2 ⟨i, ((paired.index a i).1 found).2⟩
  simpa using (apart.subperm inside).length_le

end Pairing

section Ageing
variable {blank : α} {r : Ring α n}

structure Held (r : Ring α n) (a : α) (i : Fin n) (age : Nat) : Prop where
  index : r.index a = some i
  next : r.next.val = (i.val + (age + 1)) % n
  young : age < n

theorem turn_apart (inside : i < n) (some : 0 < k) (less : k < n) : (i + k) % n ≠ i := by
  by_cases wraps : i + k < n
  · rw [Nat.mod_eq_of_lt wraps]
    omega
  · rw [Nat.mod_eq_sub_mod (by omega), Nat.mod_eq_of_lt (by omega)]
    omega

theorem take_held_self (r : Ring α n) (a : α) : Held (take blank r a) a r.next 0 where
  index := by simp [take_index]
  next := rfl
  young := Nat.zero_lt_of_lt r.next.isLt

theorem take_held (paired : Paired blank r) {b : α} {i : Fin n} (held : Held r a i age)
    (new : r.index b = none) (younger : age + 1 < n) : Held (take blank r b) a i (age + 1) where
  index := by
    have other : a ≠ b := by
      rintro rfl
      rw [held.index] at new
      cases new
    have kept : ¬ (a ≠ blank ∧ r.slots r.next = a) := by
      intro old
      have same := Option.some.inj (held.index.symm.trans ((paired.index a r.next).2 old))
      exact turn_apart i.isLt (Nat.succ_pos age) younger (held.next.symm.trans (congrArg Fin.val same.symm))
    rw [take_index, if_neg other, if_neg kept, held.index]
  next := by
    simp only [take, following, held.next, Nat.mod_add_mod]
    rw [Nat.add_assoc]
  young := younger

theorem take_drops (paired : Paired blank r) {b : α} {i : Fin n} (held : Held r a i age)
    (new : r.index b = none) (oldest : age + 1 = n) : (take blank r b).index a = none := by
  have here : r.next = i := by
    apply Fin.ext
    rw [held.next, oldest, Nat.add_mod_right, Nat.mod_eq_of_lt i.isLt]
  have other : a ≠ b := by
    rintro rfl
    rw [held.index] at new
    cases new
  rw [take_index, if_neg other, here, if_pos ((paired.index a i).1 held.index)]

theorem puts_untaken (none : taken blank r as = 0) : puts blank r as = r := by
  induction as generalizing r with
  | nil => rfl
  | cons a as ih =>
    cases indexed : r.index a with
    | some i =>
      have same : put blank r a = r := by simp [put, indexed]
      simp only [taken, indexed, same, Option.isSome_some, ↓reduceIte, Nat.zero_add] at none
      simpa [puts, same] using ih none
    | none => simp [taken, indexed] at none

theorem puts_held (values : blank ∉ as) (paired : Paired blank r) {i : Fin n} (held : Held r a i age) :
    (age + taken blank r as < n → Held (puts blank r as) a i (age + taken blank r as)) ∧
      (age + taken blank r as = n → (puts blank r as).index a = none) := by
  induction as generalizing r age with
  | nil => exact ⟨fun _ => held, fun gone => absurd gone (Nat.ne_of_lt held.young)⟩
  | cons b as ih =>
    rw [List.mem_cons, not_or] at values
    cases indexed : r.index b with
    | some k =>
      have same : put blank r b = r := by simp [put, indexed]
      simpa [puts, taken, indexed, same] using ih values.2 paired held
    | none =>
      have step : put blank r b = take blank r b := by simp [put, indexed]
      have paired' := take_paired paired indexed (Ne.symm values.1)
      simp only [taken, indexed, step, Option.isSome_none, Bool.false_eq_true, ↓reduceIte, ← Nat.add_assoc]
      simp only [puts, List.foldl_cons, step]
      by_cases younger : age + 1 < n
      · exact ih values.2 paired' (take_held paired held indexed younger)
      · have oldest : age + 1 = n := by
          have := held.young
          omega
        refine ⟨fun more => by omega, fun gone => ?_⟩
        have rest : taken blank (take blank r b) as = 0 := by omega
        rw [show List.foldl (put blank) (take blank r b) as = puts blank (take blank r b) as from rfl,
          puts_untaken rest]
        exact take_drops paired held indexed oldest

def Recent (r : Ring α n) (latest : List α) : Prop :=
  ∀ m a, latest[m]? = some a → m < n → ∃ i age, age ≤ m ∧ Held r a i age

omit [DecidableEq α] in
theorem recent_nil (r : Ring α n) : Recent r [] := by
  intro m a found
  simp at found

theorem put_recent (paired : Paired blank r) {latest : List α} (recent : Recent r latest)
    (fresh : r.index a = none ∨ ∃ i, Held r a i 0) : Recent (put blank r a) (a :: latest) := by
  intro m b found small
  rcases fresh with new | ⟨i, held⟩
  · have step : put blank r a = take blank r a := by simp [put, new]
    rw [step]
    cases m with
    | zero =>
      cases found
      exact ⟨r.next, 0, Nat.le_refl 0, take_held_self r a⟩
    | succ m =>
      obtain ⟨i, age, young, held⟩ := recent m b found (by omega)
      exact ⟨i, age + 1, by omega, take_held paired held new (by omega)⟩
  · have same : put blank r a = r := by simp [put, held.index]
    rw [same]
    cases m with
    | zero =>
      cases found
      exact ⟨i, 0, Nat.le_refl 0, held⟩
    | succ m =>
      obtain ⟨k, age, young, held'⟩ := recent m b found (by omega)
      exact ⟨k, age, by omega, held'⟩

end Ageing

end RingTables
