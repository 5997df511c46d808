import Mathlib.Data.List.AList

/-!
Tables with one value a key, which may also be absent altogether: reading an absent table
finds nothing, deleting from it does nothing, and it cannot be written to.
-/
namespace KeyedTables
universe u v
variable {K : Type u} {V : Type v} [DecidableEq K]

abbrev Table (K : Type u) (V : Type v) := AList fun _ : K => V

def get (t : Option (Table K V)) (k : K) : Option V := t.bind fun t => t.lookup k

def delete (t : Option (Table K V)) (k : K) : Option (Table K V) := t.map (·.erase k)

def values (t : Option (Table K V)) : List V := t.elim [] fun t => t.entries.map (·.2)

@[simp] theorem get_none (k : K) : get (none : Option (Table K V)) k = none := rfl

@[simp] theorem get_empty (k : K) : get (some (∅ : Table K V)) k = none := rfl

theorem get_insert (t : Table K V) (k : K) (v : V) (j : K) :
    get (some (t.insert k v)) j = if j = k then some v else get (some t) j := by
  by_cases same : j = k
  · subst same
    simp [get]
  · simp [get, same]

theorem get_delete (t : Option (Table K V)) (k j : K) : get (delete t k) j = if j = k then none else get t j := by
  cases t with
  | none => simp [delete]
  | some t =>
    by_cases same : j = k
    · subst same
      simp [get, delete]
    · simp [get, delete, same]

theorem mem_keys {t : Table K V} {k : K} : k ∈ t.keys ↔ ∃ v, get (some t) k = some v :=
  AList.lookup_isSome.symm.trans Option.isSome_iff_exists

theorem mem_values {t : Option (Table K V)} {v : V} : v ∈ values t ↔ ∃ k, get t k = some v := by
  cases t with
  | none => simp [values]
  | some t =>
    constructor
    · intro member
      obtain ⟨⟨k, w⟩, entry, rfl⟩ := List.mem_map.1 member
      exact ⟨k, AList.mem_lookup_iff.2 entry⟩
    · rintro ⟨k, found⟩
      exact List.mem_map.2 ⟨⟨k, v⟩, AList.mem_lookup_iff.1 found, rfl⟩

theorem update_other {f : K → V} {i j : K} {a b : V} (there : Function.update f i a j = b) (apart : a ≠ b) :
    j ≠ i ∧ f j = b := by
  have other : j ≠ i := by
    rintro rfl
    exact apart (by simpa using there)
  exact ⟨other, by simpa [other] using there⟩

theorem update_kept {f : K → V} {i j : K} {b : V} (there : f j = b) (elsewhere : f i ≠ b) (a : V) :
    Function.update f i a j = b := by
  have other : j ≠ i := by
    rintro rfl
    exact elsewhere there
  exact (Function.update_of_ne other a f).trans there

def filter (keep : K → V → Bool) (t : Table K V) : Table K V :=
  ⟨t.entries.filter fun e => keep e.1 e.2, t.nodupKeys.sublist List.filter_sublist⟩

theorem get_filter (keep : K → V → Bool) (t : Table K V) (k : K) (v : V) :
    get (some (filter keep t)) k = some v ↔ get (some t) k = some v ∧ keep k v = true := by
  have kept : (⟨k, v⟩ : Sigma fun _ : K => V) ∈ (filter keep t).entries ↔ ⟨k, v⟩ ∈ t.entries ∧ keep k v = true := by
    simp [filter]
  exact AList.mem_lookup_iff.trans (kept.trans (and_congr_left' AList.mem_lookup_iff.symm))

theorem values_nodup {t : Option (Table K V)}
    (once : ∀ j k v, get t j = some v → get t k = some v → j = k) : (values t).Nodup := by
  cases t with
  | none => exact List.nodup_nil
  | some t =>
    have keys : t.entries.Pairwise (fun a b => a.1 ≠ b.1) := List.pairwise_map.1 t.nodupKeys
    refine List.pairwise_map.2 (keys.imp_of_mem ?_)
    rintro ⟨j, v⟩ ⟨k, w⟩ first second apart same
    exact apart (once j k v (AList.mem_lookup_iff.2 first) ((show v = w from same) ▸ AList.mem_lookup_iff.2 second))

end KeyedTables
