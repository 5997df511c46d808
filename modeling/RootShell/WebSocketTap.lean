import RootShell.ByteText
import RootShell.StagedReaders

/-!
The tap on one direction of a WebSocket connection. It follows the stream byte by byte
through headers and payloads and records one event a frame, keeping the first bytes of
the payload.
-/
namespace WebSocketTap
open ByteLines ByteText PiecewiseFeeds StagedReaders

variable {more last p unfinished : Bytes}

def wsFramePayloadCap : Nat := 65536

abbrev Key := Fin 4 → UInt8

structure WsFrameEvent where
  dir : Bytes
  op : UInt8
  fin : Bool
  len : Nat
  text : Option Bytes
  b64 : Bytes
  truncated : Bool
  compressed : Bool
  deriving DecidableEq

structure WsTap where
  dir : Bytes
  hdr : Bytes
  need : Nat
  remaining : Nat
  offset : Nat
  mask : Key
  masked : Bool
  op : UInt8
  fin : Bool
  rsv1 : Bool
  length : Nat
  payload : Bytes
  msgOp : UInt8
  broken : Bool

def newWSTap (dir : Bytes) : WsTap where
  dir := dir
  hdr := []
  need := 2
  remaining := 0
  offset := 0
  mask _ := 0
  masked := false
  op := 0
  fin := false
  rsv1 := false
  length := 0
  payload := []
  msgOp := 0
  broken := false

section Bits

def bigEndian (s : Bytes) : Nat := s.foldl (fun acc b => acc * 256 + b.toNat) 0

def unmask (key : Key) : Nat → Bytes → Bytes
  | _, [] => []
  | offset, b :: rest => (b ^^^ key ⟨offset % 4, Nat.mod_lt _ (by decide)⟩) :: unmask key (offset + 1) rest

def validLoop : Nat → Bytes → Bool
  | _, [] => true
  | 0, _ :: _ => true
  | fuel + 1, b :: rest =>
    decide (decodeRune b rest ≠ (runeError, 1)) && validLoop fuel ((b :: rest).drop (decodeRune b rest).2)

def validUtf8 (s : Bytes) : Bool := validLoop s.length s

end Bits

namespace WsTap
variable (t : WsTap)

def readBits : WsTap :=
  let b0 := t.hdr.getD 0 0
  let b1 := t.hdr.getD 1 0
  { t with fin := b0 &&& 0x80 != 0, rsv1 := b0 &&& 0x40 != 0, op := b0 &&& 0x0F, masked := b1 &&& 0x80 != 0 }

def l7 : UInt8 := t.hdr.getD 1 0 &&& 0x7F

def extended : Nat := if t.l7 = 126 then 2 else if t.l7 = 127 then 8 else 0

def want : Nat := 2 + t.extended + if t.masked then 4 else 0

def headerLength : Nat := if t.extended = 0 then t.l7.toNat else bigEndian ((t.hdr.drop 2).take t.extended)

def opened : WsTap :=
  { t with
    length := t.headerLength
    mask := if t.masked then fun i => t.hdr.getD (2 + t.extended + i) 0 else t.mask
    remaining := t.headerLength
    offset := 0
    payload := []
    need := 0 }

def parseHeader : WsTap × Bool :=
  let t := t.readBits
  if t.hdr.length < t.want then ({ t with need := t.want }, false)
  else if t.l7 = 127 ∧ 2 ^ 63 ≤ t.headerLength then ({ t with length := t.headerLength, broken := true }, false)
  else (t.opened, true)

def dataOp : UInt8 := if t.op = 1 ∨ t.op = 2 then t.op else t.msgOp

def isText : Bool := decide ((if t.op = 0 then t.dataOp else t.op) = 1) && !t.rsv1 && validUtf8 t.payload

def emit : WsTap × WsFrameEvent :=
  ({ t with msgOp := t.dataOp, hdr := [], need := 2, payload := [] },
   { dir := t.dir
     op := t.op
     fin := t.fin
     len := t.length
     text := if t.isText then some t.payload else none
     b64 := if t.isText then [] else t.payload
     truncated := decide (t.payload.length < t.length)
     compressed := t.rsv1 })

def decoded (chunk : Bytes) : Bytes := if t.masked then unmask t.mask t.offset chunk else chunk

def keep (chunk : Bytes) : WsTap :=
  { t with
    payload := t.payload ++ t.decoded (chunk.take (wsFramePayloadCap - t.payload.length))
    offset := t.offset + chunk.length
    remaining := t.remaining - chunk.length }

end WsTap

def writeLoop : Nat → WsTap → Bytes → WsTap × List WsFrameEvent
  | _, t, [] => (t, [])
  | 0, t, _ :: _ => (t, [])
  | fuel + 1, t, p@(_ :: _) =>
    if 0 < t.need then
      let k := min (t.need - t.hdr.length) p.length
      let t := { t with hdr := t.hdr ++ p.take k }
      if t.hdr.length < t.need then (t, [])
      else
        match t.parseHeader with
        | (t, false) => if t.broken then (t, []) else writeLoop fuel t (p.drop k)
        | (t, true) =>
          if t.remaining = 0 then
            ((writeLoop fuel t.emit.1 (p.drop k)).1, t.emit.2 :: (writeLoop fuel t.emit.1 (p.drop k)).2)
          else writeLoop fuel t (p.drop k)
    else
      let k := min p.length t.remaining
      let t := t.keep (p.take k)
      if t.remaining = 0 then
        ((writeLoop fuel t.emit.1 (p.drop k)).1, t.emit.2 :: (writeLoop fuel t.emit.1 (p.drop k)).2)
      else writeLoop fuel t (p.drop k)

/-- Every round of the loop takes at least one byte. -/
def write (t : WsTap) (p : Bytes) : WsTap × List WsFrameEvent :=
  if t.broken then (t, []) else writeLoop p.length t p

section Stages

def stages : Stages WsTap UInt8 WsFrameEvent where
  wants t := if t.broken then none else if 0 < t.need then some (t.need - t.hdr.length) else some t.remaining
  absorb t part := if 0 < t.need then { t with hdr := t.hdr ++ part } else t.keep part
  finish t :=
    if 0 < t.need then
      match t.parseHeader with
      | (t, false) => (t, [])
      | (t, true) => if t.remaining = 0 then (t.emit.1, [t.emit.2]) else (t, [])
    else (t.emit.1, [t.emit.2])

theorem unmask_append (key : Key) (offset : Nat) (a b : Bytes) :
    unmask key offset (a ++ b) = unmask key offset a ++ unmask key (offset + a.length) b := by
  induction a generalizing offset with
  | nil => rfl
  | cons c a ih => simp [unmask, ih, Nat.add_assoc, Nat.add_comm 1]

@[simp] theorem unmask_length (key : Key) (offset : Nat) (s : Bytes) : (unmask key offset s).length = s.length := by
  induction s generalizing offset with
  | nil => rfl
  | cons c s ih => simp [unmask, ih]

@[simp] theorem decoded_length (t : WsTap) (chunk : Bytes) : (t.decoded chunk).length = chunk.length := by
  unfold WsTap.decoded
  split <;> simp

theorem decoded_nil (t : WsTap) : t.decoded [] = [] := List.eq_nil_of_length_eq_zero (decoded_length t [])

theorem decoded_append (t : WsTap) (a b : Bytes) : t.decoded a ++ (t.keep a).decoded b = t.decoded (a ++ b) := by
  unfold WsTap.decoded
  by_cases masked : t.masked = true
  · simp only [WsTap.keep, masked, if_true, unmask_append]
  · simp only [WsTap.keep, masked, Bool.false_eq_true, if_false]

theorem keep_keep (t : WsTap) (a b : Bytes) : (t.keep a).keep b = t.keep (a ++ b) := by
  have payload : ((t.keep a).keep b).payload = (t.keep (a ++ b)).payload := by
    let room := wsFramePayloadCap - t.payload.length
    change t.payload ++ t.decoded (a.take room) ++
        (t.keep a).decoded (b.take (wsFramePayloadCap - (t.payload ++ t.decoded (a.take room)).length)) =
      t.payload ++ t.decoded ((a ++ b).take room)
    have left : wsFramePayloadCap - (t.payload ++ t.decoded (a.take room)).length = room - a.length := by
      simp only [List.length_append, decoded_length, List.length_take, room]
      omega
    rw [left, List.append_assoc, List.take_append]
    by_cases fits : a.length ≤ room
    · rw [List.take_of_length_le fits, decoded_append]
    · -- the cap has been reached, so nothing of the second part is kept
      rw [Nat.sub_eq_zero_of_le (by omega), List.take_zero, decoded_nil, List.append_nil, List.append_nil]
  simp only [WsTap.keep, List.length_append] at payload ⊢
  rw [payload, Nat.add_assoc, Nat.sub_sub]

theorem parse_header_cases (t : WsTap) :
    (∃ u, t.parseHeader = (u, false) ∧ (u.broken = true ∨ u.hdr.length < u.need)) ∨
      ∃ u, t.parseHeader = (u, true) ∧ u.need = 0 ∧ u.broken = t.broken := by
  unfold WsTap.parseHeader
  simp only
  split
  · rename_i short
    exact Or.inl ⟨_, rfl, Or.inr short⟩
  · split
    · exact Or.inl ⟨_, rfl, Or.inl rfl⟩
    · exact Or.inr ⟨_, rfl, rfl, rfl⟩

theorem emit_wants (t : WsTap) : stages.wants t.emit.1 ≠ some 0 := by
  simp only [stages, WsTap.emit]
  split <;> simp

theorem stages_lawful : Lawful stages where
  shrinks t n part missing short := by
    simp only [stages] at *
    split at missing
    · cases missing
    · rename_i unbroken
      split at missing
      · rename_i header
        simp only [header, if_true, unbroken, Bool.false_eq_true, if_false, List.length_append]
        simp only [Option.some.injEq] at missing ⊢
        omega
      · rename_i payload
        simp only [payload, if_false, WsTap.keep, unbroken, Bool.false_eq_true]
        simp only [Option.some.injEq] at missing ⊢
        omega
  joins t part more := by
    simp only [stages]
    by_cases header : 0 < t.need
    · simp [header]
    · rw [if_neg header, if_neg header]
      exact (if_neg header).trans (keep_keep t part more)
  rests t := by
    simp only [stages]
    split
    · simp
    · simp [WsTap.keep, decoded_nil]
  waits t := by
    by_cases header : 0 < t.need
    · simp only [stages, header, if_true]
      rcases parse_header_cases t with ⟨u, parsed, ended | short⟩ | ⟨u, parsed, payload, _⟩
      · simp [parsed, ended]
      · have positive : 0 < u.need := Nat.zero_lt_of_lt short
        rw [parsed]
        simp only [positive, if_true]
        split
        · simp
        · simp only [ne_eq, Option.some.injEq]
          omega
      · rw [parsed]
        simp only
        split
        · exact emit_wants u
        · simp_all
    · simp only [stages, header, if_false]
      exact emit_wants t

theorem write_loop_nil (fuel : Nat) (t : WsTap) : writeLoop fuel t [] = (t, []) := by
  cases fuel <;> rfl

theorem write_loop_round {fuel n : Nat} {t : WsTap} (more : p ≠ []) (unbroken : t.broken = false)
    (missing : stages.wants t = some n) :
    writeLoop (fuel + 1) t p =
      if p.length < n then (stages.absorb t p, [])
      else
        let u := stages.finish (stages.absorb t (p.take n))
        if u.1.broken then u else ((writeLoop fuel u.1 (p.drop n)).1, u.2 ++ (writeLoop fuel u.1 (p.drop n)).2) := by
  obtain ⟨c, rest, rfl⟩ := List.exists_cons_of_ne_nil more
  rw [writeLoop]
  generalize c :: rest = p
  simp only [stages, unbroken, Bool.false_eq_true, if_false] at missing
  by_cases header : 0 < t.need
  · simp only [header, if_true, Option.some.injEq] at missing
    simp only [stages, header, if_true]
    by_cases short : p.length < n
    · have length : (t.hdr ++ p).length < t.need := by
        rw [List.length_append]
        omega
      rw [Nat.min_eq_right (by omega), List.take_length, if_pos short, if_pos length]
    · have length : ¬ (t.hdr ++ p.take n).length < t.need := by
        rw [List.length_append, List.length_take]
        omega
      rw [Nat.min_eq_left (by omega), missing, if_neg short, if_neg length]
      rcases parse_header_cases { t with hdr := t.hdr ++ p.take n } with ⟨u, parsed, _⟩ | ⟨u, parsed, _, kept⟩
      · simp only [parsed, List.nil_append]
      · rw [unbroken] at kept
        simp only [parsed]
        split
        · simp [WsTap.emit, kept]
        · simp [kept]
  · simp only [header, if_false, Option.some.injEq] at missing
    subst missing
    simp only [stages, header, if_false]
    by_cases short : p.length < t.remaining
    · have left : (t.keep p).remaining ≠ 0 := by
        simp only [WsTap.keep]
        omega
      rw [Nat.min_eq_left (by omega), List.take_length, List.drop_length, if_pos short, if_neg left, write_loop_nil]
    · have left : (t.keep (p.take t.remaining)).remaining = 0 := by
        simp only [WsTap.keep, List.length_take]
        omega
      have kept : (t.keep (p.take t.remaining)).emit.1.broken = false := unbroken
      rw [Nat.min_eq_right (by omega), if_neg short, if_pos left]
      have payload : ¬ 0 < (t.keep (p.take t.remaining)).need := header
      simp only [payload, if_false, kept, Bool.false_eq_true, List.singleton_append]

theorem write_loop_reads {fuel : Nat} {t : WsTap} (enough : p.length ≤ fuel) (unbroken : t.broken = false)
    (waiting : stages.wants t ≠ some 0) : Reads stages t p (writeLoop fuel t p).1 (writeLoop fuel t p).2 := by
  induction fuel generalizing t p with
  | zero =>
    obtain rfl := List.eq_nil_of_length_eq_zero (Nat.le_zero.1 enough)
    exact reads_nil stages_lawful waiting
  | succ fuel ih =>
    by_cases more : p = []
    · rw [more, write_loop_nil]
      exact reads_nil stages_lawful waiting
    · cases missing : stages.wants t with
      | none =>
        simp only [stages, unbroken, Bool.false_eq_true, if_false] at missing
        split at missing <;> cases missing
      | some n =>
        rw [write_loop_round more unbroken missing]
        split
        · rename_i short
          exact .wait missing short
        · rename_i enough
          have positive : n ≠ 0 := fun zero => waiting (by rw [missing, zero])
          have finished := stages_lawful.waits (stages.absorb t (p.take n))
          simp only
          split
          · rename_i broken
            have step := reads_take missing (Nat.le_of_not_lt enough) (.ignore (if_pos broken))
            rwa [List.append_nil] at step
          · rename_i kept
            refine reads_take missing (Nat.le_of_not_lt enough) (ih ?_ (Bool.eq_false_iff.2 kept) finished)
            rw [List.length_drop]
            omega

theorem write_reads (t : WsTap) (p : Bytes) (waiting : stages.wants t ≠ some 0) :
    Reads stages t p (write t p).1 (write t p).2 := by
  unfold write
  split
  · rename_i broken
    exact .ignore (if_pos broken)
  · rename_i unbroken
    exact write_loop_reads (Nat.le_refl _) (Bool.eq_false_iff.2 unbroken) waiting

end Stages

section Frames

inductive LengthForm where
  | short
  | medium
  | long
  deriving DecidableEq

def LengthForm.bytes : LengthForm → Nat
  | short => 0
  | medium => 2
  | long => 8

def LengthForm.code (n : Nat) : LengthForm → Nat
  | short => n
  | medium => 126
  | long => 127

def LengthForm.Fits (n : Nat) : LengthForm → Prop
  | short => n ≤ 125
  | medium => n < 2 ^ 16
  | long => n < 2 ^ 63

structure Frame where
  fin : Bool
  rsv1 : Bool
  rsv2 : Bool
  rsv3 : Bool
  op : Fin 16
  key : Option Key
  form : LengthForm
  payload : Bytes
  fits : form.Fits payload.length

def bit (set : Bool) (value : Nat) : Nat := if set then value else 0

def bigEndianBytes : Nat → Nat → Bytes
  | 0, _ => []
  | k + 1, n => bigEndianBytes k (n / 256) ++ [UInt8.ofNat (n % 256)]

namespace Frame
variable (f : Frame)

def lead : UInt8 := UInt8.ofNat (bit f.fin 128 + bit f.rsv1 64 + bit f.rsv2 32 + bit f.rsv3 16 + f.op)

def second : UInt8 := UInt8.ofNat (f.form.code f.payload.length + bit f.key.isSome 128)

def extension : Bytes := bigEndianBytes f.form.bytes f.payload.length ++ f.key.elim [] List.ofFn

def header : Bytes := f.lead :: f.second :: f.extension

def wire : Bytes := f.key.elim f.payload fun key => unmask key 0 f.payload

def encode : Bytes := f.header ++ f.wire

end Frame

def WsFrameEvent.payload (ev : WsFrameEvent) : Bytes := ev.text.getD ev.b64

structure Describes (f : Frame) (ev : WsFrameEvent) : Prop where
  op : ev.op = UInt8.ofNat f.op
  fin : ev.fin = f.fin
  len : ev.len = f.payload.length
  payload : ev.payload = f.payload.take wsFramePayloadCap
  truncated : ev.truncated = true ↔ wsFramePayloadCap < f.payload.length
  compressed : ev.compressed = f.rsv1

theorem big_endian_append (s : Bytes) (b : UInt8) : bigEndian (s ++ [b]) = bigEndian s * 256 + b.toNat := by
  simp [bigEndian]

theorem big_endian_length (k n : Nat) : (bigEndianBytes k n).length = k := by
  induction k generalizing n with
  | zero => rfl
  | succ k ih => simp [bigEndianBytes, ih]

theorem big_endian_bytes (k n : Nat) (fits : n < 256 ^ k) : bigEndian (bigEndianBytes k n) = n := by
  induction k generalizing n with
  | zero =>
    have zero : n = 0 := by simpa using fits
    simp [bigEndianBytes, bigEndian, zero]
  | succ k ih =>
    have inner : n / 256 < 256 ^ k := Nat.div_lt_of_lt_mul (by rwa [Nat.pow_succ, Nat.mul_comm] at fits)
    have byte : (UInt8.ofNat (n % 256)).toNat = n % 256 := UInt8.toNat_ofNat_of_lt (Nat.mod_lt _ (by decide))
    rw [bigEndianBytes, big_endian_append, ih _ inner, byte]
    omega

theorem unmask_unmask (key : Key) (offset : Nat) (s : Bytes) : unmask key offset (unmask key offset s) = s := by
  induction s generalizing offset with
  | nil => rfl
  | cons c s ih => rw [unmask, unmask, ih, UInt8.xor_assoc, UInt8.xor_self, UInt8.xor_zero]

theorem unmask_take (key : Key) (offset n : Nat) (s : Bytes) :
    (unmask key offset s).take n = unmask key offset (s.take n) := by
  induction s generalizing offset n with
  | nil => simp [unmask]
  | cons c s ih =>
    cases n with
    | zero => rfl
    | succ n => simp [unmask, ih]

theorem lead_bits : ∀ (fin rsv1 rsv2 rsv3 : Bool) (op : Fin 16),
    let b := UInt8.ofNat (bit fin 128 + bit rsv1 64 + bit rsv2 32 + bit rsv3 16 + op)
    (b &&& 0x80 != 0) = fin ∧ (b &&& 0x40 != 0) = rsv1 ∧ b &&& 0x0F = UInt8.ofNat op := by
  decide

theorem second_bits : ∀ (code : Fin 128) (masked : Bool),
    let b := UInt8.ofNat (code + bit masked 128)
    (b &&& 0x80 != 0) = masked ∧ (b &&& 0x7F).toNat = code := by
  decide

theorem code_lt (f : Frame) : f.form.code f.payload.length < 128 := by
  have fits := f.fits
  cases form : f.form with
  | short =>
    rw [form] at fits
    exact Nat.lt_of_le_of_lt fits (by decide)
  | medium => exact (by decide : 126 < 128)
  | long => exact (by decide : 127 < 128)

theorem extension_length (f : Frame) : f.extension.length = f.form.bytes + if f.key.isSome then 4 else 0 := by
  unfold Frame.extension
  cases f.key <;> simp [big_endian_length]

def bits (t : WsTap) (f : Frame) : WsTap :=
  { t with fin := f.fin, rsv1 := f.rsv1, op := UInt8.ofNat f.op, masked := f.key.isSome }

variable {t : WsTap} {f : Frame}

theorem read_bits (begun : t.hdr = f.lead :: f.second :: more) : t.readBits = bits t f := by
  obtain ⟨fin, rsv1, op⟩ := lead_bits f.fin f.rsv1 f.rsv2 f.rsv3 f.op
  obtain ⟨masked, _⟩ := second_bits ⟨_, code_lt f⟩ f.key.isSome
  change (f.lead &&& 0x80 != 0) = f.fin at fin
  change (f.lead &&& 0x40 != 0) = f.rsv1 at rsv1
  change f.lead &&& 0x0F = UInt8.ofNat f.op at op
  change (f.second &&& 0x80 != 0) = f.key.isSome at masked
  simp only [WsTap.readBits, begun, List.getD_cons_zero, List.getD_cons_succ, fin, rsv1, op, masked, bits]

theorem l7_code (begun : t.hdr = f.lead :: f.second :: more) : t.l7.toNat = f.form.code f.payload.length := by
  rw [WsTap.l7, begun]
  exact (second_bits ⟨_, code_lt f⟩ f.key.isSome).2

theorem extended_bytes (begun : t.hdr = f.lead :: f.second :: more) : t.extended = f.form.bytes := by
  have code := l7_code begun
  have fits := f.fits
  simp only [WsTap.extended, ← UInt8.toNat_inj, code]
  cases form : f.form with
  | short =>
    rw [form] at fits
    have small : f.payload.length ≤ 125 := fits
    rw [LengthForm.code, if_neg (by rw [show (126 : UInt8).toNat = 126 from rfl]; omega),
      if_neg (by rw [show (127 : UInt8).toNat = 127 from rfl]; omega), LengthForm.bytes]
  | medium => rfl
  | long => rfl

theorem want_header (begun : t.hdr = f.lead :: f.second :: more) : (bits t f).want = f.header.length := by
  have bytes : (bits t f).extended = f.form.bytes := extended_bytes (t := bits t f) begun
  rw [WsTap.want, bytes, Frame.header, List.length_cons, List.length_cons, extension_length]
  change 2 + f.form.bytes + (if f.key.isSome = true then 4 else 0) = _
  omega

theorem header_length (whole : t.hdr = f.header) : t.headerLength = f.payload.length := by
  have code := l7_code whole
  have fits := f.fits
  have field : (t.hdr.drop 2).take f.form.bytes = bigEndianBytes f.form.bytes f.payload.length := by
    rw [whole]
    exact List.take_left' (big_endian_length _ _)
  rw [WsTap.headerLength, extended_bytes whole, field]
  cases form : f.form with
  | short =>
    rw [form] at code
    exact code
  | medium =>
    rw [form] at fits
    exact big_endian_bytes 2 _ fits
  | long =>
    rw [form] at fits
    exact big_endian_bytes 8 _ (Nat.lt_trans fits (by decide))

theorem header_key (whole : t.hdr = f.header) (key : Key) (masked : f.key = some key) (i : Fin 4) :
    t.hdr.getD (2 + f.form.bytes + i) 0 = key i := by
  have place : 2 + f.form.bytes + i.val = f.form.bytes + i.val + 1 + 1 := by omega
  have length := big_endian_length f.form.bytes f.payload.length
  rw [whole, place, Frame.header, List.getD_cons_succ, List.getD_cons_succ, Frame.extension, masked]
  rw [List.getD_eq_getElem?_getD, List.getElem?_append_right (by omega), length, Nat.add_sub_cancel_left]
  simp only [Option.elim_some, List.getElem?_ofFn, i.isLt, dite_true, Option.getD_some]

theorem payload_small (f : Frame) : f.payload.length < 2 ^ 63 := by
  have fits := f.fits
  cases form : f.form with
  | short =>
    rw [form] at fits
    exact Nat.lt_of_le_of_lt fits (by decide)
  | medium =>
    rw [form] at fits
    exact Nat.lt_trans fits (by decide)
  | long =>
    rw [form] at fits
    exact fits

def started (t : WsTap) (f : Frame) : WsTap :=
  { bits t f with
    length := f.payload.length
    mask := f.key.getD t.mask
    remaining := f.payload.length
    offset := 0
    payload := []
    need := 0 }

theorem parse_whole (whole : t.hdr = f.header) : t.parseHeader = (started t f, true) := by
  have length := header_length (t := bits t f) whole
  have mask : (if f.key.isSome = true then fun i : Fin 4 => t.hdr.getD (2 + f.form.bytes + i) 0 else t.mask) =
      f.key.getD t.mask := by
    cases masked : f.key with
    | none => rfl
    | some key => exact funext (header_key whole key masked)
  rw [WsTap.parseHeader, read_bits whole]
  simp only [want_header whole]
  rw [if_neg (by rw [show (bits t f).hdr = f.header from whole]; exact Nat.lt_irrefl _), if_neg]
  · rw [WsTap.opened, length, extended_bytes (t := bits t f) whole]
    exact congrArg (fun mask => ({ started t f with mask := mask }, true)) mask
  · rintro ⟨_, huge⟩
    rw [length] at huge
    exact Nat.not_lt.2 huge (payload_small f)

theorem parse_begun (begun : t.hdr = [f.lead, f.second]) (more : f.extension ≠ []) :
    t.parseHeader = ({ bits t f with need := f.header.length }, false) := by
  have short : (bits t f).hdr.length < f.header.length := by
    have positive := List.length_pos_iff.2 more
    rw [show (bits t f).hdr = _ from begun, Frame.header]
    simpa using positive
  rw [WsTap.parseHeader, read_bits begun]
  simp only [want_header begun]
  rw [if_pos short]

structure Fresh (t : WsTap) : Prop where
  hdr : t.hdr = []
  need : t.need = 2
  unbroken : t.broken = false

structure Heading (t : WsTap) (f : Frame) (last : Bytes) : Prop where
  header : t.hdr ++ last = f.header
  need : t.need = f.header.length
  unbroken : t.broken = false

theorem Heading.positive (heading : Heading t f last) : 0 < t.need := by
  rw [heading.need]
  exact Nat.succ_pos _

theorem Heading.wants (heading : Heading t f last) : stages.wants t = some last.length := by
  have length := congrArg List.length heading.header
  rw [List.length_append] at length
  simp only [stages, heading.unbroken, Bool.false_eq_true, if_false, heading.positive, if_true, Option.some.injEq]
  rw [heading.need]
  omega

theorem header_stages (fresh : Fresh t) (f : Frame) :
    ∃ front last u, f.header = front ++ last ∧ Passes stages t front u ∧ Heading u f last := by
  by_cases more : f.extension = []
  · refine ⟨[], f.header, t, rfl, .done, ?_, ?_, fresh.unbroken⟩
    · rw [fresh.hdr, List.nil_append]
    · rw [fresh.need, Frame.header, more]
      rfl
  · have missing : stages.wants t = some [f.lead, f.second].length := by
      simp [stages, fresh.unbroken, fresh.need, fresh.hdr]
    let begun : WsTap := { t with hdr := [f.lead, f.second] }
    have absorbed : stages.absorb t [f.lead, f.second] = begun := by
      simp [stages, fresh.need, fresh.hdr, begun]
    have finished : stages.finish begun = ({ bits begun f with need := f.header.length }, []) := by
      have positive : 0 < begun.need := by simp [begun, fresh.need]
      simp only [stages, positive, if_true, parse_begun (t := begun) rfl more]
    have passed := passes_stage (r := stages) .done missing (by rw [absorbed, finished])
    rw [absorbed, finished] at passed
    exact ⟨_, f.extension, _, rfl, passed, rfl, rfl, fresh.unbroken⟩

theorem keep_nil (t : WsTap) : t.keep [] = t := by
  simp [WsTap.keep, decoded_nil]

theorem wire_length (f : Frame) : f.wire.length = f.payload.length := by
  unfold Frame.wire
  cases f.key <;> simp

theorem decoded_wire (t : WsTap) (f : Frame) (n : Nat) : (started t f).decoded (f.wire.take n) = f.payload.take n := by
  cases masked : f.key with
  | none =>
    have plain : (started t f).masked = false := by simp [started, bits, masked]
    rw [WsTap.decoded, plain, Frame.wire, masked]
    rfl
  | some key =>
    have keyed : (started t f).masked = true := by simp [started, bits, masked]
    have mask : (started t f).mask = key := by simp [started, masked]
    rw [WsTap.decoded, if_pos keyed, mask, Frame.wire, masked]
    change unmask key 0 ((unmask key 0 f.payload).take n) = _
    rw [unmask_take, unmask_unmask]

theorem emit_payload (t : WsTap) : t.emit.2.payload = t.payload := by
  simp only [WsFrameEvent.payload, WsTap.emit]
  cases t.isText <;> rfl

theorem event_describes (t : WsTap) (f : Frame) : Describes f ((started t f).keep f.wire).emit.2 := by
  have payload : ((started t f).keep f.wire).payload = f.payload.take wsFramePayloadCap :=
    decoded_wire t f wsFramePayloadCap
  refine ⟨rfl, rfl, rfl, ?_, ?_, rfl⟩
  · rw [emit_payload, payload]
  · simp only [WsTap.emit, payload, decide_eq_true_eq, List.length_take]
    change min wsFramePayloadCap f.payload.length < f.payload.length ↔ _
    omega

theorem frame_stages (fresh : Fresh t) (f : Frame) :
    ∃ front last u, f.encode = front ++ last ∧ Passes stages t front u ∧ stages.wants u = some last.length ∧
      Fresh (stages.finish (stages.absorb u last)).1 ∧
      ∃ ev, (stages.finish (stages.absorb u last)).2 = [ev] ∧ Describes f ev := by
  obtain ⟨front, last, u, split, passed, heading⟩ := header_stages fresh f
  let v : WsTap := { u with hdr := f.header }
  have absorbed : stages.absorb u last = v := by
    simp only [stages, heading.positive, if_true, heading.header, v]
  have parsed : stages.finish v =
      if f.payload.length = 0 then ((started v f).emit.1, [(started v f).emit.2]) else (started v f, []) := by
    have positive : 0 < v.need := heading.positive
    simp only [stages, positive, if_true, parse_whole (t := v) rfl]
    rfl
  have event := event_describes v f
  have unbroken : v.broken = false := heading.unbroken
  by_cases empty : f.payload.length = 0
  · have wire : f.wire = [] := List.eq_nil_of_length_eq_zero ((wire_length f).trans empty)
    rw [wire, keep_nil] at event
    refine ⟨front, last, u, by rw [Frame.encode, wire, List.append_nil, split], passed, heading.wants, ?_⟩
    rw [absorbed, parsed, if_pos empty]
    exact ⟨⟨rfl, rfl, unbroken⟩, _, rfl, event⟩
  · rw [if_neg empty] at parsed
    have begun := passes_stage passed heading.wants (by rw [absorbed, parsed])
    rw [absorbed, parsed, ← split] at begun
    have wants : stages.wants (started v f) = some f.wire.length := by
      rw [wire_length]
      exact if_neg (by rw [show (started v f).broken = false from unbroken]; exact Bool.false_ne_true)
    exact ⟨f.header, f.wire, _, rfl, begun, wants, ⟨rfl, rfl, unbroken⟩, _, rfl, event⟩

theorem reads_frames (fresh : Fresh t) (frames : List Frame) {next : Frame}
    (begun : unfinished <+: next.encode) (apart : unfinished ≠ next.encode) :
    ∃ u events, Reads stages t ((frames.map Frame.encode).flatten ++ unfinished) u events ∧
      List.Forall₂ Describes frames events := by
  induction frames generalizing t with
  | nil =>
    obtain ⟨front, last, u, split, passed, wants, _⟩ := frame_stages fresh next
    rw [split] at begun apart
    obtain ⟨v, read⟩ := passes_cut passed wants begun apart
    exact ⟨v, [], read, .nil⟩
  | cons f frames ih =>
    obtain ⟨front, last, u, split, passed, wants, after, ev, out, describes⟩ := frame_stages fresh f
    obtain ⟨v, events, rest, described⟩ := ih after
    have read := passes_reads passed wants rest
    rw [out, ← split] at read
    refine ⟨v, ev :: events, ?_, .cons describes described⟩
    rw [List.map_cons, List.flatten_cons, List.append_assoc]
    exact read

theorem fresh_new (dir : Bytes) : Fresh (newWSTap dir) := ⟨rfl, rfl, rfl⟩

end Frames

section Decoding

theorem tap_reads (dir : Bytes) (pieces : List Bytes) :
    Reads stages (newWSTap dir) pieces.flatten (feedAll write (newWSTap dir) pieces).1
      (feedAll write (newWSTap dir) pieces).2 :=
  reads_feed_all stages_lawful write_reads (by simp [stages, newWSTap]) pieces

/-- However a stream of frames is written, there is one event for each complete frame,
    which describes it; and any other partition of the stream gives the same events. -/
theorem frames_tapped (dir : Bytes) {frames : List Frame} {unfinished : Bytes} {next : Frame}
    (begun : unfinished <+: next.encode) (apart : unfinished ≠ next.encode) {pieces : List Bytes}
    (stream : pieces.flatten = (frames.map Frame.encode).flatten ++ unfinished) :
    List.Forall₂ Describes frames (feedAll write (newWSTap dir) pieces).2 ∧
      ∀ others : List Bytes, others.flatten = pieces.flatten →
        (feedAll write (newWSTap dir) others).2 = (feedAll write (newWSTap dir) pieces).2 := by
  have read := tap_reads dir pieces
  constructor
  · obtain ⟨u, events, whole, described⟩ := reads_frames (fresh_new dir) frames begun apart
    rw [← stream] at whole
    rw [(reads_unique read whole).2]
    exact described
  · intro others same
    have other := tap_reads dir others
    rw [same] at other
    exact (reads_unique other read).2

def hello : Frame where
  fin := true
  rsv1 := false
  rsv2 := false
  rsv3 := false
  op := 1
  key := some fun i => UInt8.ofNat (17 * (i + 1))
  form := .short
  payload := text "hello"
  fits := Nat.le_of_ble_eq_true rfl

def ping : Frame where
  fin := true
  rsv1 := false
  rsv2 := false
  rsv3 := false
  op := 9
  key := none
  form := .medium
  payload := []
  fits := Nat.le_of_ble_eq_true rfl

theorem greeting_tapped :
    List.Forall₂ Describes [hello, ping] (feedAll write (newWSTap (text "out"))
      [hello.encode.take 7, hello.encode.drop 7 ++ ping.encode.take 3, [], ping.encode.drop 3 ++ [0x89]]).2 := by
  have begun : [0x89] <+: ping.encode := by decide +kernel
  refine (frames_tapped (text "out") begun (by decide +kernel) ?_).1
  decide +kernel

end Decoding

end WebSocketTap
