import Mathlib.Data.BitVec

/-!
Internet addresses and address prefixes with the comparison rules of Go's net/netip: an
IPv4 address and the IPv6 address that maps it are different values, a zoned address is
inside no prefix, and a prefix is never compared with the other family. Prefixes need not
be masked.
-/
namespace AddressPrefixes

section Words
variable {w : Nat} {a b c : BitVec w} {m n : Nat}

def agree (n : Nat) (a b : BitVec w) : Bool := a >>> (w - n) == b >>> (w - n)

def leading (n : Nat) (a : BitVec w) : BitVec w := (a >>> (w - n)) <<< (w - n)

theorem agree_symm (same : agree n a b = true) : agree n b a = true := by
  simp only [agree, beq_iff_eq] at same ⊢
  exact same.symm

theorem agree_trans (first : agree n a b = true) (second : agree n b c = true) : agree n a c = true := by
  simp only [agree, beq_iff_eq] at first second ⊢
  exact first.trans second

theorem agree_fewer (fewer : m ≤ n) (same : agree n a b = true) : agree m a b = true := by
  simp only [agree, beq_iff_eq] at same ⊢
  have split : w - m = (w - n) + ((w - m) - (w - n)) := by omega
  rw [split, BitVec.shiftRight_add, BitVec.shiftRight_add, same]

theorem agree_none (a b : BitVec w) : agree 0 a b = true := by
  simp [agree, BitVec.ushiftRight_eq_zero]

theorem agree_shorter (left : agree m a c = true) (right : agree n b c = true) : agree (min m n) a b = true :=
  agree_trans (agree_fewer (Nat.min_le_left m n) left)
    (agree_symm (agree_fewer (Nat.min_le_right m n) right))

end Words

inductive Addr where
  | zero
  | v4 (word : BitVec 32)
  | v6 (word : BitVec 128) (zone : List UInt8)
  deriving DecidableEq

namespace Addr

def isValid : Addr → Bool
  | zero => false
  | _ => true

def is4 : Addr → Bool
  | v4 _ => true
  | _ => false

def bitLen : Addr → Nat
  | zero => 0
  | v4 _ => 32
  | v6 _ _ => 128

/-- The IPv4 address behind an IPv4-mapped IPv6 address, whose zone is dropped. -/
def unmap : Addr → Addr
  | v6 word zone => if word >>> 32 = 0xffff#128 then v4 (word.setWidth 32) else v6 word zone
  | a => a

theorem unmap_v4 (word : BitVec 32) : (v4 word).unmap = v4 word := rfl

theorem unmap_unmap (a : Addr) : a.unmap.unmap = a.unmap := by
  cases a with
  | zero => rfl
  | v4 => rfl
  | v6 word zone =>
    by_cases mapped : word >>> 32 = 0xffff#128
    · simp [unmap, mapped]
    · simp [unmap, mapped]

theorem unmap_valid (a : Addr) : a.unmap.isValid = a.isValid := by
  cases a with
  | zero => rfl
  | v4 => rfl
  | v6 word zone =>
    by_cases mapped : word >>> 32 = 0xffff#128
    · simp [unmap, mapped, isValid]
    · simp [unmap, mapped]

end Addr

inductive Prefix where
  | invalid (ip : Addr)
  | v4 (word : BitVec 32) (bits : Fin 33)
  | v6 (word : BitVec 128) (bits : Fin 129)
  deriving DecidableEq

namespace Prefix

def isValid : Prefix → Bool
  | invalid _ => false
  | _ => true

def addr : Prefix → Addr
  | invalid ip => ip
  | v4 word _ => .v4 word
  | v6 word _ => .v6 word []

/-- PrefixFrom: the zone is dropped and nothing is masked. -/
def ofAddr (ip : Addr) (bits : Nat) : Prefix :=
  match ip with
  | .zero => invalid .zero
  | .v4 word => if fits : bits < 33 then v4 word ⟨bits, fits⟩ else invalid (.v4 word)
  | .v6 word _ => if fits : bits < 129 then v6 word ⟨bits, fits⟩ else invalid (.v6 word [])

def masked : Prefix → Prefix
  | invalid _ => invalid .zero
  | v4 word bits => v4 (leading bits word) bits
  | v6 word bits => v6 (leading bits word) bits

def contains : Prefix → Addr → Bool
  | v4 word bits, .v4 a => agree bits word a
  | v6 word bits, .v6 a [] => agree bits word a
  | _, _ => false

def overlaps : Prefix → Prefix → Bool
  | v4 a m, v4 b n => agree (min m.val n.val) a b
  | v6 a m, v6 b n => agree (min m.val n.val) a b
  | _, _ => false

def all4 : Prefix := v4 0 0

def all6 : Prefix := v6 0 0

theorem of_addr_valid {ip : Addr} (valid : ip.isValid = true) : (ofAddr ip ip.bitLen).isValid = true := by
  cases ip with
  | zero => simp [Addr.isValid] at valid
  | v4 word => rfl
  | v6 word zone => rfl

theorem masked_valid (p : Prefix) : p.masked.isValid = p.isValid := by
  cases p with
  | invalid ip => rfl
  | v4 word bits => rfl
  | v6 word bits => rfl

variable {p : Prefix} {a : Addr}

theorem contains_valid (inside : p.contains a = true) : p.isValid = true := by
  cases p with
  | invalid ip => simp [contains] at inside
  | v4 word bits => rfl
  | v6 word bits => rfl

theorem contains_addr_valid (inside : p.contains a = true) : a.isValid = true := by
  cases a with
  | zero => cases p <;> simp [contains] at inside
  | v4 => rfl
  | v6 => rfl

theorem contains_family (inside : p.contains a = true) : p.addr.is4 = a.is4 := by
  cases p with
  | invalid ip => simp [contains] at inside
  | v4 word bits =>
    cases a with
    | zero => simp [contains] at inside
    | v4 => rfl
    | v6 => simp [contains] at inside
  | v6 word bits =>
    cases a with
    | zero => simp [contains] at inside
    | v4 => simp [contains] at inside
    | v6 => rfl

theorem contains_unzoned {word : BitVec 128} {zone : List UInt8}
    (inside : p.contains (.v6 word zone) = true) : zone = [] := by
  cases zone with
  | nil => rfl
  | cons => cases p <;> simp [contains] at inside

theorem all4_contains (word : BitVec 32) : all4.contains (.v4 word) = true := agree_none _ _

theorem all6_contains (word : BitVec 128) : all6.contains (.v6 word []) = true := agree_none _ _

theorem contains_overlaps {q : Prefix} (left : p.contains a = true)
    (right : q.contains a = true) : p.overlaps q = true := by
  cases p with
  | invalid => simp [contains] at left
  | v4 base m =>
    cases a with
    | zero => simp [contains] at left
    | v6 => simp [contains] at left
    | v4 word =>
      cases q with
      | invalid => simp [contains] at right
      | v6 => simp [contains] at right
      | v4 other n =>
        exact agree_shorter left right
  | v6 base m =>
    cases a with
    | zero => simp [contains] at left
    | v4 => simp [contains] at left
    | v6 word zone =>
      cases contains_unzoned left
      cases q with
      | invalid => simp [contains] at right
      | v4 => simp [contains] at right
      | v6 other n =>
        exact agree_shorter left right

end Prefix

end AddressPrefixes
