import RootShell.ByteText
import RootShell.FallibleState
import RootShell.FilledReads

/-!
The X11 cookie: substituteX11Packet of tssh/forward_x11.go and fillFakeCookie of tssh/xauth.go.
The packet is read into an array of 4096 bytes, and every index and slice of it is checked as the
language checks them. The verdict needs the length of the real cookie only; then it is written.
-/
namespace CookieSubstitution
open ByteLines ByteText FallibleState SegmentedStreams FilledReads

variable {low protoLen cookieLen realLen i high count : Nat} {s cookieBuffer proto fake rest real packet : Bytes}

abbrev Channel := Conn UInt8 ReadError

inductive Failure where
  | outOfRange
  | error (message : Bytes)

abbrev Act (A : Type) := Prog Channel Failure A

def raise {A : Type} (message : Bytes) : Act A := throw (.error message)

structure XauthInfo where
  xauthProto : Bytes
  realCookie : Bytes
  fakeCookie : Bytes

section Messages

def hexByte (b : UInt8) : Bytes :=
  text "0x" ++ if b.toNat < 16 then [hexDigit b.toNat] else hexBytes [b]

def readHeaderFailed : Bytes := text "read header failed: "

def readPacketFailed : Bytes := text "read packet failed: "

def badByteOrder (order : UInt8) : Bytes := text "bad byte order byte: " ++ hexByte order

def protoLengthMismatch (packet localLen : Nat) : Bytes :=
  text "proto length mismatch: packet=" ++ itoa packet ++ text " local=" ++ itoa localLen

def cookieLengthMismatch (packet fake real : Nat) : Bytes :=
  text "cookie length mismatch: packet=" ++ itoa packet ++ text " fake=" ++ itoa fake ++ text " real=" ++ itoa real

def packetTooLarge (full : Nat) : Bytes := text "packet too large: " ++ itoa full ++ text " bytes"

def authProtoMismatch (packet proto : Bytes) : Bytes :=
  text "auth proto mismatch: packet=" ++ packet ++ text " local=" ++ proto

def cookieMismatch (packet fake : Bytes) : Bytes :=
  text "authentication cookie mismatch: packet=" ++ hexBytes packet ++ text "*** local=" ++ hexBytes fake ++ text "***"

end Messages

section Buffers

/-- A slice from the start of an array: an index stays below its length, a slice of it
    below its capacity. -/
structure Buffer where
  array : Bytes
  len : Nat

def newBuffer : Buffer := ⟨List.replicate 4096 0, 4096⟩

def Buffer.index (b : Buffer) (i : Nat) : Act UInt8 :=
  if i < b.len then pure (b.array.getD i 0) else throw .outOfRange

def Buffer.slice (b : Buffer) (low high : Nat) : Act Bytes :=
  if low ≤ high ∧ high ≤ b.array.length then pure ((b.array.take high).drop low) else throw .outOfRange

def Buffer.reslice (b : Buffer) (high : Nat) : Act Buffer :=
  if high ≤ b.array.length then pure { b with len := high } else throw .outOfRange

def Buffer.write (b : Buffer) (low : Nat) (data : Bytes) : Buffer :=
  { b with array := b.array.take low ++ data ++ b.array.drop (low + data.length) }

def front (s : Bytes) (high : Nat) : Act Bytes :=
  if high ≤ s.length then pure (s.take high) else throw .outOfRange

def Buffer.readAtLeast (b : Buffer) (low high need : Nat) (failed : Bytes) : Act (Nat × Buffer) := do
  let _ ← b.slice low high
  fun c =>
    let out := FilledReads.readAtLeast .eof .unexpectedEOF c (high - low) need
    match out.2.1 with
    | some err => (.error (.error (failed ++ err.message)), out.2.2)
    | none => (.ok (out.1.length, b.write low out.1), out.2.2)

end Buffers

def parseLengths (b : Buffer) : Act (Nat × Nat) := do
  let order ← b.index 0
  if order = 0x42 then do
    let p0 ← b.index 6
    let p1 ← b.index 7
    let c0 ← b.index 8
    let c1 ← b.index 9
    pure (p0.toNat * 256 + p1.toNat, c0.toNat * 256 + c1.toNat)
  else if order = 0x6c then do
    let p0 ← b.index 6
    let p1 ← b.index 7
    let c0 ← b.index 8
    let c1 ← b.index 9
    pure (p0.toNat + p1.toNat * 256, c0.toNat + c1.toNat * 256)
  else raise (badByteOrder order)

def padded (n : Nat) : Nat := (n + 3) / 4 * 4

def fullHeaderLen (protoLen cookieLen : Nat) : Nat := 12 + padded protoLen + padded cookieLen

def readRest (b : Buffer) (full : Nat) : Act Buffer :=
  if b.len < full then do
    let read ← b.readAtLeast b.len full (full - b.len) readPacketFailed
    read.2.reslice full
  else pure b

def checkCookie (info : XauthInfo) (cookieLen : Nat) (cookieBuffer : Bytes) : Act Unit :=
  if cookieBuffer ≠ info.fakeCookie then do
    let packet ← front cookieBuffer (min 3 (cookieLen / 2))
    let fake ← front info.fakeCookie (min 3 (cookieLen / 2))
    raise (cookieMismatch packet fake)
  else pure ()

def readPacket (info : XauthInfo) (protoLen cookieLen : Nat) (header : Buffer) : Act Buffer := do
  refuse (protoLen ≠ info.xauthProto.length) (.error (protoLengthMismatch protoLen info.xauthProto.length))
  refuse (cookieLen ≠ info.fakeCookie.length ∨ cookieLen ≠ info.realCookie.length)
    (.error (cookieLengthMismatch cookieLen info.fakeCookie.length info.realCookie.length))
  refuse (header.array.length < fullHeaderLen protoLen cookieLen)
    (.error (packetTooLarge (fullHeaderLen protoLen cookieLen)))
  readRest header (fullHeaderLen protoLen cookieLen)

def substituteCookie (info : XauthInfo) (protoLen cookieLen : Nat) (packet : Buffer) : Act Bytes := do
  let protoBuffer ← packet.slice 12 (12 + protoLen)
  refuse (protoBuffer ≠ info.xauthProto) (.error (authProtoMismatch protoBuffer info.xauthProto))
  let cookieOffset := 12 + padded protoLen
  let cookieBuffer ← packet.slice cookieOffset (cookieOffset + cookieLen)
  checkCookie info cookieLen cookieBuffer
  -- copy stops at the end of the shorter slice
  let substituted := packet.write cookieOffset (info.realCookie.take cookieLen)
  substituted.slice 0 substituted.len

def substituteX11Packet (info : XauthInfo) : Act Bytes := do
  let read ← newBuffer.readAtLeast 0 4096 12 readHeaderFailed
  let header ← read.2.reslice read.1
  let found ← parseLengths header
  let packet ← readPacket info found.1 found.2 header
  substituteCookie info found.1 found.2 packet

/-- The random bytes are a stream of which the cookie takes the front. -/
def fillFakeCookie (random : Except Bytes (Nat → UInt8)) (xauthData : XauthInfo) : Except Bytes XauthInfo :=
  let length := if xauthData.realCookie.length = 0 then 16 else xauthData.realCookie.length
  match random with
  | .error err => .error (text "random cookie failed: " ++ err)
  | .ok byte =>
    let cookie := (List.range length).map byte
    .ok { xauthData with
      fakeCookie := cookie
      realCookie := if xauthData.realCookie.length = 0 then cookie else xauthData.realCookie }

section Verdict

def lengths (s : Bytes) : Option (Nat × Nat) :=
  if s.getD 0 0 = 0x42 then
    some ((s.getD 6 0).toNat * 256 + (s.getD 7 0).toNat, (s.getD 8 0).toNat * 256 + (s.getD 9 0).toNat)
  else if s.getD 0 0 = 0x6c then
    some ((s.getD 6 0).toNat + (s.getD 7 0).toNat * 256, (s.getD 8 0).toNat + (s.getD 9 0).toNat * 256)
  else none

def verdictOn (proto fake : Bytes) (protoLen cookieLen : Nat) (s : Bytes) : Except Bytes (Nat × Bytes) :=
  if (s.drop 12).take protoLen ≠ proto then .error (authProtoMismatch ((s.drop 12).take protoLen) proto)
  else if (s.drop (12 + padded protoLen)).take cookieLen ≠ fake then
    .error (cookieMismatch (((s.drop (12 + padded protoLen)).take cookieLen).take (min 3 (cookieLen / 2)))
      (fake.take (min 3 (cookieLen / 2))))
  else .ok (12 + padded protoLen, s)

def verdictAfter (proto fake : Bytes) (realLen protoLen cookieLen : Nat) (s : Bytes) (c : Channel) :
    Except Bytes (Nat × Bytes) × Channel :=
  let full := fullHeaderLen protoLen cookieLen
  if protoLen ≠ proto.length then (.error (protoLengthMismatch protoLen proto.length), c)
  else if cookieLen ≠ fake.length ∨ cookieLen ≠ realLen then
    (.error (cookieLengthMismatch cookieLen fake.length realLen), c)
  else if 4096 < full then (.error (packetTooLarge full), c)
  else if s.length < full then
    let out := readFull .eof .unexpectedEOF c (full - s.length)
    match out.2.1 with
    | some err => (.error (readPacketFailed ++ err.message), out.2.2)
    | none => (verdictOn proto fake protoLen cookieLen (s ++ out.1), out.2.2)
  else (verdictOn proto fake protoLen cookieLen s, c)

/-- What is decided without the real cookie: the bytes read and the place of the cookie in
    them, or the error. -/
def verdict (proto fake : Bytes) (realLen : Nat) (c : Channel) : Except Bytes (Nat × Bytes) × Channel :=
  let out := FilledReads.readAtLeast .eof .unexpectedEOF c 4096 12
  match out.2.1 with
  | some err => (.error (readHeaderFailed ++ err.message), out.2.2)
  | none =>
    match lengths out.1 with
    | none => (.error (badByteOrder (out.1.getD 0 0)), out.2.2)
    | some found => verdictAfter proto fake realLen found.1 found.2 out.1 out.2.2

def release (real : Bytes) : Except Bytes (Nat × Bytes) → Except Failure Bytes
  | .ok found => .ok (found.2.take found.1 ++ real ++ found.2.drop (found.1 + real.length))
  | .error message => .error (.error message)

end Verdict

section Runs
variable {A B : Type} {c : Channel} {b : Buffer} {info : XauthInfo}

structure Holds (b : Buffer) (s : Bytes) : Prop where
  size : b.array.length = 4096
  len : b.len = s.length
  fits : s.length ≤ 4096
  bytes : b.array.take s.length = s

theorem Holds.split (holds : Holds b s) : b.array = s ++ b.array.drop s.length := by
  have whole := List.take_append_drop s.length b.array
  rw [holds.bytes] at whole
  exact whole.symm

theorem Holds.index (holds : Holds b s) (inside : i < s.length) : (b.index i).from c = (.ok (s.getD i 0), c) := by
  rw [Buffer.index, if_pos (by rw [holds.len]; exact inside), holds.split, List.getD_eq_getElem?_getD,
    List.getElem?_append_left inside, ← List.getD_eq_getElem?_getD]
  rfl

theorem Holds.slice (holds : Holds b s) (ordered : low ≤ high) (inside : high ≤ s.length) :
    (b.slice low high).from c = (.ok ((s.take high).drop low), c) := by
  have room : high ≤ b.array.length := by
    rw [holds.size]
    exact Nat.le_trans inside holds.fits
  rw [Buffer.slice, if_pos ⟨ordered, room⟩, holds.split, List.take_append_of_le_length inside]
  rfl

theorem Holds.fill (size : b.array.length = 4096) (bytes : b.array.take s.length = s) (data : Bytes)
    (room : s.length + data.length ≤ 4096) :
    ((b.write s.length data).reslice (s.length + data.length)).from c =
        (.ok ⟨(b.write s.length data).array, s.length + data.length⟩, c) ∧
      Holds ⟨(b.write s.length data).array, s.length + data.length⟩ (s ++ data) := by
  have total : (b.write s.length data).array.length = 4096 := by
    simp only [Buffer.write, List.length_append, List.length_take, List.length_drop]
    omega
  constructor
  · rw [Buffer.reslice, if_pos (by rw [total]; exact room)]
    rfl
  · refine ⟨total, by simp, by simpa using room, ?_⟩
    simp only [Buffer.write]
    rw [bytes, List.take_left]

theorem Holds.overwrite (holds : Holds b s) (data : Bytes) (inside : low + data.length ≤ s.length) :
    Holds (b.write low data) (s.take low ++ data ++ s.drop (low + data.length)) := by
  have fits := holds.fits
  have size := holds.size
  have written : (b.write low data).array =
      s.take low ++ data ++ s.drop (low + data.length) ++ b.array.drop s.length := by
    have first : b.array.take low = s.take low := by
      rw [holds.split, List.take_append_of_le_length (by omega)]
    have last : b.array.drop (low + data.length) = s.drop (low + data.length) ++ b.array.drop s.length := by
      conv => lhs; rw [holds.split, List.drop_append_of_le_length inside]
    rw [Buffer.write, first, last, List.append_assoc _ (s.drop _)]
  have length : (s.take low ++ data ++ s.drop (low + data.length)).length = s.length := by
    simp only [List.length_append, List.length_take, List.length_drop]
    omega
  refine ⟨?_, ?_, by omega, ?_⟩
  · simp only [Buffer.write, List.length_append, List.length_take, List.length_drop]
    omega
  · rw [length]
    exact holds.len
  · rw [written, List.take_left]

theorem new_buffer_bytes : newBuffer.array.length = 4096 ∧ newBuffer.array.take ([] : Bytes).length = [] :=
  ⟨List.length_replicate, rfl⟩

theorem read_at_least_run (size : b.array.length = 4096) (ordered : low ≤ high)
    (room : high ≤ 4096) (need : Nat) (failed : Bytes) :
    (b.readAtLeast low high need failed).from c =
      let out := FilledReads.readAtLeast .eof .unexpectedEOF c (high - low) need
      match out.2.1 with
      | some err => (.error (.error (failed ++ err.message)), out.2.2)
      | none => (.ok (out.1.length, b.write low out.1), out.2.2) := by
  have sliced : (b.slice low high).from c = (.ok ((b.array.take high).drop low), c) := by
    rw [Buffer.slice, if_pos ⟨ordered, by rw [size]; exact room⟩]
    rfl
  exact run_bind_ok sliced

theorem parse_lengths_run (holds : Holds b s) (header : 12 ≤ s.length) :
    (parseLengths b).from c =
      ((lengths s).elim (.error (.error (badByteOrder (s.getD 0 0)))) .ok, c) := by
  have first := holds.index (c := c) (show 0 < s.length by omega)
  have six := holds.index (c := c) (show 6 < s.length by omega)
  have seven := holds.index (c := c) (show 7 < s.length by omega)
  have eight := holds.index (c := c) (show 8 < s.length by omega)
  have nine := holds.index (c := c) (show 9 < s.length by omega)
  rw [parseLengths, run_bind_ok first, lengths]
  split
  · rw [run_bind_ok six, run_bind_ok seven, run_bind_ok eight, run_bind_ok nine]
    rfl
  · split
    · rw [run_bind_ok six, run_bind_ok seven, run_bind_ok eight, run_bind_ok nine]
      rfl
    · rfl

theorem padded_le (n : Nat) : n ≤ padded n := by
  unfold padded
  omega

theorem check_cookie_fails (length : cookieBuffer.length = cookieLen)
    (fake : info.fakeCookie.length = cookieLen) (other : cookieBuffer ≠ info.fakeCookie) (next : Unit → Act A) :
    (checkCookie info cookieLen cookieBuffer >>= next).from c =
      (.error (.error (cookieMismatch (cookieBuffer.take (min 3 (cookieLen / 2)))
        (info.fakeCookie.take (min 3 (cookieLen / 2))))), c) := by
  have first : (front cookieBuffer (min 3 (cookieLen / 2))).from c =
      (.ok (cookieBuffer.take (min 3 (cookieLen / 2))), c) := by
    rw [front, if_pos (by omega)]
    rfl
  have second : (front info.fakeCookie (min 3 (cookieLen / 2))).from c =
      (.ok (info.fakeCookie.take (min 3 (cookieLen / 2))), c) := by
    rw [front, if_pos (by omega)]
    rfl
  refine run_bind_error ?_
  rw [checkCookie, if_pos other, run_bind_ok first, run_bind_ok second]
  rfl

theorem check_cookie_passes (same : cookieBuffer = info.fakeCookie) (next : Unit → Act A) :
    (checkCookie info cookieLen cookieBuffer >>= next).from c = (next ()).from c := by
  rw [checkCookie, if_neg (not_not.2 same)]
  exact run_bind_ok rfl

theorem substitute_cookie_run (holds : Holds b s) (whole : fullHeaderLen protoLen cookieLen ≤ s.length)
    (fake : cookieLen = info.fakeCookie.length) (real : cookieLen = info.realCookie.length) :
    (substituteCookie info protoLen cookieLen b).from c =
      (release info.realCookie (verdictOn info.xauthProto info.fakeCookie protoLen cookieLen s), c) := by
  have proto := padded_le protoLen
  have cookie := padded_le cookieLen
  have inside : 12 + padded protoLen + cookieLen ≤ s.length := by
    unfold fullHeaderLen at whole
    omega
  have protoBuffer := holds.slice (c := c) (Nat.le_add_right 12 protoLen) (by omega)
  have cookieBuffer := holds.slice (c := c) (Nat.le_add_right (12 + padded protoLen) cookieLen) inside
  rw [List.drop_take, Nat.add_sub_cancel_left] at protoBuffer cookieBuffer
  rw [substituteCookie, run_bind_ok protoBuffer, verdictOn]
  split
  · rename_i other
    rw [refuse_fails other]
    rfl
  · rename_i same
    rw [refuse_passes same, run_bind_ok cookieBuffer]
    split
    · rename_i other
      rw [check_cookie_fails (by simp; omega) fake.symm other]
      rfl
    · rename_i equal
      rw [check_cookie_passes (not_not.1 equal), real, List.take_length]
      have substituted := holds.overwrite info.realCookie (real ▸ inside)
      rw [substituted.slice (Nat.zero_le _) (Nat.le_of_eq substituted.len), substituted.len, List.take_length,
        List.drop_zero]
      rfl

theorem read_packet_run (holds : Holds b s) :
    (readPacket info protoLen cookieLen b >>= substituteCookie info protoLen cookieLen).from c =
      (release info.realCookie (verdictAfter info.xauthProto info.fakeCookie info.realCookie.length
          protoLen cookieLen s c).1,
        (verdictAfter info.xauthProto info.fakeCookie info.realCookie.length protoLen cookieLen s c).2) := by
  simp only [readPacket, verdictAfter, bind_assoc]
  split
  · rename_i other
    rw [refuse_fails other]
    rfl
  rename_i proto
  rw [refuse_passes proto]
  split
  · rename_i other
    rw [refuse_fails other]
    rfl
  rename_i cookie
  obtain ⟨fake, real⟩ := not_or.1 cookie
  rw [refuse_passes cookie, holds.size]
  split
  · rename_i large
    rw [refuse_fails large]
    rfl
  rename_i fits
  rw [refuse_passes fits, readRest, holds.len]
  split
  · rename_i short
    have run := read_at_least_run (c := c) holds.size (Nat.le_of_lt short) (Nat.le_of_not_lt fits)
      (fullHeaderLen protoLen cookieLen - s.length) readPacketFailed
    have read := read_at_least_read .eof .unexpectedEOF c (Nat.le_refl (fullHeaderLen protoLen cookieLen - s.length))
    rw [readFull, bind_assoc]
    rcases out : FilledReads.readAtLeast .eof .unexpectedEOF c (fullHeaderLen protoLen cookieLen - s.length)
      (fullHeaderLen protoLen cookieLen - s.length) with ⟨got, err, rest⟩
    rw [out] at run read
    cases err with
    | some e => exact run_bind_error run
    | none =>
      have length : got.length = fullHeaderLen protoLen cookieLen - s.length :=
        Nat.le_antisymm read.short (read.enough.1 rfl)
      have filled := Holds.fill (c := rest) holds.size holds.bytes got (by omega)
      rw [length, Nat.add_sub_cancel' (Nat.le_of_lt short)] at filled
      rw [run_bind_ok run, run_bind_ok filled.1]
      exact substitute_cookie_run filled.2 (by simp; omega) (not_not.1 fake) (not_not.1 real)
  · rename_i enough
    rw [run_bind_ok (run_pure b c)]
    exact substitute_cookie_run holds (Nat.le_of_not_lt enough) (not_not.1 fake) (not_not.1 real)

theorem substitute_verdict (info : XauthInfo) (c : Channel) :
    (substituteX11Packet info).from c =
      (release info.realCookie (verdict info.xauthProto info.fakeCookie info.realCookie.length c).1,
        (verdict info.xauthProto info.fakeCookie info.realCookie.length c).2) := by
  have run := read_at_least_run (c := c) new_buffer_bytes.1 (Nat.zero_le 4096) (Nat.le_refl 4096) 12
    readHeaderFailed
  have read := read_at_least_read .eof .unexpectedEOF c (show 12 ≤ 4096 by decide)
  rw [substituteX11Packet, verdict]
  rw [Nat.sub_zero] at run
  rcases out : FilledReads.readAtLeast .eof .unexpectedEOF c 4096 12 with ⟨got, err, rest⟩
  rw [out] at run read ⊢
  cases err with
  | some e => exact run_bind_error run
  | none =>
    have short : ([] : Bytes).length + got.length ≤ 4096 := by simpa using read.short
    obtain ⟨resliced, holds⟩ := Holds.fill (c := rest) new_buffer_bytes.1 new_buffer_bytes.2 got short
    rw [List.length_nil, Nat.zero_add] at resliced holds
    rw [List.nil_append] at holds
    have parsed := parse_lengths_run (c := rest) holds (read.enough.1 rfl)
    rw [run_bind_ok run, run_bind_ok resliced]
    cases found : lengths got with
    | none =>
      rw [found] at parsed
      exact run_bind_error parsed
    | some lens =>
      rw [found] at parsed
      rw [run_bind_ok parsed]
      exact read_packet_run holds

end Runs

section Released
variable {c : Channel}
  {result : Except Bytes (Nat × Bytes)} {random : Except Bytes (Nat → UInt8)}

structure Presented (proto fake s : Bytes) (protoLen cookieLen : Nat) : Prop where
  order : lengths s = some (protoLen, cookieLen)
  fits : fullHeaderLen protoLen cookieLen ≤ 4096
  whole : fullHeaderLen protoLen cookieLen ≤ s.length
  proto : (s.drop 12).take protoLen = proto
  cookie : (s.drop (12 + padded protoLen)).take cookieLen = fake

theorem lengths_append (header : 12 ≤ s.length) (rest : Bytes) : lengths (s ++ rest) = lengths s := by
  have same (i : Nat) (inside : i < 12) : (s ++ rest).getD i 0 = s.getD i 0 := by
    rw [List.getD_eq_getElem?_getD, List.getElem?_append_left (by omega), ← List.getD_eq_getElem?_getD]
  rw [lengths, same 0 (by decide), same 6 (by decide), same 7 (by decide), same 8 (by decide), same 9 (by decide)]
  rfl

theorem slice_append (inside : low + count ≤ s.length) (rest : Bytes) :
    ((s ++ rest).drop low).take count = (s.drop low).take count := by
  rw [List.drop_append_of_le_length (by omega), List.take_append_of_le_length (by simp; omega)]

theorem presented_append (whole : fullHeaderLen protoLen cookieLen ≤ s.length) (rest : Bytes) :
    Presented proto fake (s ++ rest) protoLen cookieLen ↔ Presented proto fake s protoLen cookieLen := by
  have first := padded_le protoLen
  have second := padded_le cookieLen
  unfold fullHeaderLen at whole
  have order := lengths_append (show 12 ≤ s.length by omega) rest
  have name := slice_append (show 12 + protoLen ≤ s.length by omega) rest
  have cookie := slice_append (show 12 + padded protoLen + cookieLen ≤ s.length by omega) rest
  constructor
  · intro shown
    exact ⟨order ▸ shown.order, shown.fits, whole, name ▸ shown.proto, cookie ▸ shown.cookie⟩
  · intro shown
    refine ⟨order.trans shown.order, shown.fits, ?_, name.trans shown.proto, cookie.trans shown.cookie⟩
    exact Nat.le_trans whole (by simp)

theorem Presented.lengths (shown : Presented proto fake s protoLen cookieLen) :
    protoLen = proto.length ∧ cookieLen = fake.length := by
  have first := padded_le protoLen
  have second := padded_le cookieLen
  have whole := shown.whole
  unfold fullHeaderLen at whole
  constructor
  · rw [← shown.proto, List.length_take, List.length_drop]
    omega
  · rw [← shown.cookie, List.length_take, List.length_drop]
    omega

theorem verdict_on_ok (found : Nat × Bytes) :
    verdictOn proto fake protoLen cookieLen s = .ok found ↔
      (s.drop 12).take protoLen = proto ∧ (s.drop (12 + padded protoLen)).take cookieLen = fake ∧
        found = (12 + padded protoLen, s) := by
  unfold verdictOn
  split
  · rename_i other
    simp [other]
  · rename_i same
    split
    · rename_i other
      simp [other]
    · rename_i equal
      simp [not_not.1 same, not_not.1 equal, eq_comm]

theorem verdict_after_ok {found : Nat × Bytes} {last : Channel} (order : lengths s = some (protoLen, cookieLen))
    (header : 12 ≤ s.length) (short : s.length ≤ 4096)
    (favourable : verdictAfter proto fake realLen protoLen cookieLen s c = (.ok found, last)) :
    ∃ got, found = (12 + padded protoLen, s ++ got) ∧ got ++ last.stream = c.stream ∧
      (s ++ got).length ≤ 4096 ∧ Presented proto fake (s ++ got) protoLen realLen := by
  unfold verdictAfter at favourable
  dsimp only at favourable
  split at favourable
  · cases favourable
  split at favourable
  · cases favourable
  rename_i cookie
  obtain ⟨_, real⟩ := not_or.1 cookie
  rw [← not_not.1 real]
  split at favourable
  · cases favourable
  rename_i fits
  have fits := Nat.le_of_not_lt fits
  split at favourable
  · rename_i missing
    have read := read_at_least_read .eof .unexpectedEOF c (Nat.le_refl (fullHeaderLen protoLen cookieLen - s.length))
    rw [readFull] at favourable
    rcases out : FilledReads.readAtLeast .eof .unexpectedEOF c (fullHeaderLen protoLen cookieLen - s.length)
      (fullHeaderLen protoLen cookieLen - s.length) with ⟨got, err, rest⟩
    rw [out] at read favourable
    cases err with
    | some e => cases favourable
    | none =>
      obtain ⟨result, rfl⟩ := Prod.mk.inj favourable
      obtain ⟨name, equal, rfl⟩ := (verdict_on_ok found).1 result
      have length : got.length = fullHeaderLen protoLen cookieLen - s.length :=
        Nat.le_antisymm read.short (read.enough.1 rfl)
      have total : (s ++ got).length = fullHeaderLen protoLen cookieLen := by
        rw [List.length_append]
        omega
      exact ⟨got, rfl, read.stream, by omega,
        (lengths_append header got).trans order, fits, Nat.le_of_eq total.symm, name, equal⟩
  · rename_i enough
    obtain ⟨result, rfl⟩ := Prod.mk.inj favourable
    obtain ⟨name, equal, rfl⟩ := (verdict_on_ok found).1 result
    refine ⟨[], by rw [List.append_nil], rfl, by simpa using short, ?_⟩
    rw [List.append_nil]
    exact ⟨order, fits, Nat.le_of_not_lt enough, name, equal⟩

theorem release_ok (released : release real result = .ok packet) :
    ∃ found, result = .ok found ∧
      packet = found.2.take found.1 ++ real ++ found.2.drop (found.1 + real.length) := by
  cases result with
  | error message => cases released
  | ok found =>
    cases released
    exact ⟨found, rfl, rfl⟩

theorem release_error {failure : Failure} (released : release real result = .error failure) :
    ∃ message, result = .error message ∧ failure = .error message := by
  cases result with
  | error message =>
    cases released
    exact ⟨message, rfl, rfl⟩
  | ok found => cases released

theorem verdict_after_shown (steady : Steady c) (shown : Presented proto fake (s ++ c.stream) protoLen realLen) :
    ∃ found last, verdictAfter proto fake realLen protoLen realLen s c = (.ok found, last) := by
  obtain ⟨protoLength, cookieLength⟩ := shown.lengths
  have fits := shown.fits
  unfold verdictAfter
  dsimp only
  rw [if_neg (not_not.2 protoLength), if_neg (by simp [← cookieLength]), if_neg (Nat.not_lt.2 shown.fits)]
  split
  · rename_i missing
    have whole := shown.whole
    rw [List.length_append] at whole
    obtain ⟨rest, read, _, _⟩ := read_full_exact ReadError.eof .unexpectedEOF steady
      (List.take_append_drop (fullHeaderLen protoLen realLen - s.length) c.stream).symm
    have count : (c.stream.take (fullHeaderLen protoLen realLen - s.length)).length =
        fullHeaderLen protoLen realLen - s.length := by
      rw [List.length_take]
      omega
    rw [count] at read
    rw [read]
    have split : s ++ c.stream = s ++ c.stream.take (fullHeaderLen protoLen realLen - s.length) ++
        c.stream.drop (fullHeaderLen protoLen realLen - s.length) := by
      rw [List.append_assoc, List.take_append_drop]
    rw [split] at shown
    have front := (presented_append (by rw [List.length_append, count]; omega) _).1 shown
    exact ⟨_, rest, congrArg (·, rest) ((verdict_on_ok _).2 ⟨front.proto, front.cookie, rfl⟩)⟩
  · rename_i enough
    have front := (presented_append (Nat.le_of_not_lt enough) _).1 shown
    exact ⟨_, c, congrArg (·, c) ((verdict_on_ok _).2 ⟨front.proto, front.cookie, rfl⟩)⟩

theorem verdict_ok {found : Nat × Bytes} (favourable : (verdict proto fake realLen c).1 = .ok found) :
    ∃ protoLen, found.1 = 12 + padded protoLen ∧ found.2 ++ (verdict proto fake realLen c).2.stream = c.stream ∧
      found.2.length ≤ 4096 ∧ Presented proto fake found.2 protoLen realLen := by
  have read := read_at_least_read .eof .unexpectedEOF c (show 12 ≤ 4096 by decide)
  unfold verdict at favourable ⊢
  rcases out : FilledReads.readAtLeast .eof .unexpectedEOF c 4096 12 with ⟨s, err, rest⟩
  rw [out] at read favourable ⊢
  cases err with
  | some e => cases favourable
  | none =>
    dsimp only at favourable ⊢
    cases order : lengths s with
    | none =>
      rw [order] at favourable
      cases favourable
    | some lens =>
      rw [order] at favourable
      rcases after : verdictAfter proto fake realLen lens.1 lens.2 s rest with ⟨result, last⟩
      dsimp only at favourable ⊢
      rw [after] at favourable ⊢
      cases favourable
      obtain ⟨got, rfl, stream, short, shown⟩ := verdict_after_ok order (read.enough.1 rfl) read.short after
      refine ⟨lens.1, rfl, ?_, short, shown⟩
      rw [List.append_assoc, stream]
      exact read.stream

theorem verdict_shown (steady : Steady c) (shown : Presented proto fake c.stream protoLen realLen) :
    ∃ found, (verdict proto fake realLen c).1 = .ok found := by
  have read := read_at_least_read .eof .unexpectedEOF c (show 12 ≤ 4096 by decide)
  have long : 12 ≤ c.stream.length := by
    have whole := shown.whole
    unfold fullHeaderLen at whole
    omega
  have fine := (read_enough read steady).2 long
  unfold verdict
  rcases out : FilledReads.readAtLeast .eof .unexpectedEOF c 4096 12 with ⟨s, err, rest⟩
  rw [out] at read fine
  subst fine
  have stream : s ++ rest.stream = c.stream := read.stream
  rw [← stream] at shown
  have order : lengths s = some (protoLen, realLen) :=
    (lengths_append (read.enough.1 rfl) rest.stream).symm.trans shown.order
  obtain ⟨found, last, after⟩ := verdict_after_shown (read.steady steady) shown
  refine ⟨found, ?_⟩
  rw [out]
  dsimp only
  rw [order]
  exact congrArg Prod.fst after

theorem fill_fake_cookie_lengths {given info : XauthInfo}
    (filled : fillFakeCookie random given = .ok info) : info.fakeCookie.length = info.realCookie.length := by
  unfold fillFakeCookie at filled
  cases random with
  | error err => cases filled
  | ok byte =>
    cases filled
    dsimp only
    split
    · rfl
    · rw [List.length_map, List.length_range]

theorem fill_fake_cookie_real {given info : XauthInfo}
    (filled : fillFakeCookie random given = .ok info) (same : real.length = given.realCookie.length) :
    ∃ other, fillFakeCookie random { given with realCookie := real } = .ok other ∧
      other.xauthProto = info.xauthProto ∧ other.fakeCookie = info.fakeCookie ∧
      other.realCookie.length = info.realCookie.length := by
  unfold fillFakeCookie at filled ⊢
  cases random with
  | error err => cases filled
  | ok byte =>
    cases filled
    refine ⟨_, rfl, rfl, by rw [same], ?_⟩
    dsimp only
    rw [same]
    split
    · rfl
    · exact same

/-- No index and no slice is out of range. A packet is returned exactly when the header arrives
    with the protocol and the fake cookie in it; it is what was read with the real cookie in place
    of the fake one. An error is the same for every real cookie of that length. -/
theorem cookie_released_to_holder (random : Except Bytes (Nat → UInt8)) (given info : XauthInfo)
    (filled : fillFakeCookie random given = .ok info) (c : Channel) :
    ((substituteX11Packet info).from c).1 ≠ .error .outOfRange ∧
    (Steady c →
      ((∃ packet, ((substituteX11Packet info).from c).1 = .ok packet) ↔
        ∃ protoLen cookieLen, Presented info.xauthProto info.fakeCookie c.stream protoLen cookieLen)) ∧
    (∀ packet, ((substituteX11Packet info).from c).1 = .ok packet →
      ∃ taken protoLen, taken ++ ((substituteX11Packet info).from c).2.stream = c.stream ∧
        taken.length ≤ 4096 ∧ packet.length = taken.length ∧
        Presented info.xauthProto info.fakeCookie taken protoLen info.realCookie.length ∧
        packet = taken.take (12 + padded protoLen) ++ info.realCookie ++
          taken.drop (12 + padded protoLen + info.realCookie.length)) ∧
    (∀ failure, ((substituteX11Packet info).from c).1 = .error failure →
      ∀ other : XauthInfo, other.xauthProto = info.xauthProto → other.fakeCookie = info.fakeCookie →
        other.realCookie.length = info.realCookie.length →
        (substituteX11Packet other).from c = (substituteX11Packet info).from c) ∧
    (∀ real : Bytes, real.length = given.realCookie.length →
      ∃ other, fillFakeCookie random { given with realCookie := real } = .ok other ∧
        other.xauthProto = info.xauthProto ∧ other.fakeCookie = info.fakeCookie ∧
        other.realCookie.length = info.realCookie.length) := by
  have cookie := fill_fake_cookie_lengths filled
  refine ⟨?_, ?_, ?_, ?_, fun real same => fill_fake_cookie_real filled same⟩
  · rw [substitute_verdict]
    intro panicked
    obtain ⟨message, _, other⟩ := release_error panicked
    cases other
  · intro steady
    rw [substitute_verdict]
    constructor
    · rintro ⟨packet, returned⟩
      obtain ⟨found, result, _⟩ := release_ok returned
      obtain ⟨protoLen, _, stream, _, shown⟩ := verdict_ok result
      refine ⟨protoLen, info.realCookie.length, ?_⟩
      rw [← stream]
      exact (presented_append shown.whole _).2 shown
    · rintro ⟨protoLen, cookieLen, shown⟩
      rw [shown.lengths.2, cookie] at shown
      obtain ⟨found, result⟩ := verdict_shown steady shown
      rw [result]
      exact ⟨_, rfl⟩
  · intro packet returned
    rw [substitute_verdict] at returned ⊢
    obtain ⟨found, result, rfl⟩ := release_ok returned
    obtain ⟨protoLen, place, stream, short, shown⟩ := verdict_ok result
    refine ⟨found.2, protoLen, stream, short, ?_, shown, by rw [place]⟩
    have whole := shown.whole
    have padding := padded_le info.realCookie.length
    unfold fullHeaderLen at whole
    simp only [place, List.length_append, List.length_take, List.length_drop]
    omega
  · intro failure returned other proto fake real
    rw [substitute_verdict] at returned
    obtain ⟨message, result, _⟩ := release_error returned
    rw [substitute_verdict, substitute_verdict, proto, fake, real, result]
    rfl

def pairChannel : Channel where
  pieces := [([0x6c, 0, 11, 0, 0], none), ([0, 1, 0, 2, 0, 0, 0, 80, 0, 0, 0, 1, 2, 0, 0, 7], none)]
  ending := .eof

theorem pair_cookie_released :
    ∃ packet, ((substituteX11Packet ⟨[80], [9, 8], [1, 2]⟩).from pairChannel).1 = .ok packet := by
  have steady : Steady pairChannel := by simp [Steady, pairChannel]
  have shown : Presented [80] [1, 2] pairChannel.stream 1 2 :=
    ⟨by decide, by decide, by decide, by decide, by decide⟩
  have filled : fillFakeCookie (.ok fun i => UInt8.ofNat (i + 1)) ⟨[80], [9, 8], []⟩ =
      .ok ⟨[80], [9, 8], [1, 2]⟩ := rfl
  exact ((cookie_released_to_holder _ _ _ filled pairChannel).2.1 steady).2 ⟨1, 2, shown⟩

end Released

end CookieSubstitution
