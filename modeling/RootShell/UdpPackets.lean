import RootShell.OnesComplement
import RootShell.TunnelPath
import RootShell.WebSocketTap

/-!
UDP packets over IPv4 and IPv6 (vpntunnel/dnspacket.go): what buildUDPPacket writes,
parseIPPacket reads back, and the checksums verify.
-/
namespace UdpPackets
open ByteLines AddressPrefixes OnesComplement
open TunnelPath (ipProtoTCP ipProtoUDP)
open WebSocketTap (bigEndian bigEndianBytes big_endian_bytes big_endian_length)

variable {s d pkt l4 a b c addrs : Bytes} {sum n i j total udpLen : Nat}

structure AddrPort where
  addr : Addr
  port : UInt16

section Addresses

/-- netip's As4, which panics on the zero Addr and on IPv6. -/
def as4 : Addr → Option Bytes
  | .zero => none
  | .v4 word => some (bigEndianBytes 4 word.toNat)
  | .v6 word _ => if word >>> 32 = 0xffff#128 then some (bigEndianBytes 4 (word.setWidth 32).toNat) else none

def as16 : Addr → Bytes
  | .zero => bigEndianBytes 16 0
  | .v4 word => bigEndianBytes 16 (0xffff * 2 ^ 32 + word.toNat)
  | .v6 word _ => bigEndianBytes 16 word.toNat

def addrFrom4 (b : Bytes) : Addr := .v4 (BitVec.ofNat 32 (bigEndian b))

def addrFrom16 (b : Bytes) : Addr := .v6 (BitVec.ofNat 128 (bigEndian b)) []

def unzoned : Addr → Addr
  | .v6 word _ => .v6 word []
  | a => a

end Addresses

section Parsing

structure IpPacketInfo extends TunnelPath.IpPacketInfo where
  src : Addr
  l4 : Bytes
  srcPort : UInt16
  hasL4Ports : Bool

def slice (s : Bytes) (i j : Nat) : Bytes := (s.take j).drop i

def byteAt (s : Bytes) (i : Nat) : UInt8 := s.getD i 0

def uint16At (s : Bytes) (i : Nat) : Nat := bigEndian (slice s i (i + 2))

def withPorts (src dst : Addr) (proto : UInt8) (l4 : Bytes) : IpPacketInfo :=
  if (proto = ipProtoTCP ∨ proto = ipProtoUDP) ∧ 8 ≤ l4.length then
    ⟨⟨dst, proto, UInt16.ofNat (uint16At l4 2)⟩, src, l4, UInt16.ofNat (uint16At l4 0), true⟩
  else ⟨⟨dst, proto, 0⟩, src, l4, 0, false⟩

def parseIPPacket (pkt : Bytes) : Option IpPacketInfo :=
  if pkt.length < 1 then none
  else if byteAt pkt 0 >>> 4 = 4 then
    if pkt.length < 20 then none
    else
      let ihl := (byteAt pkt 0 &&& 0x0f).toNat * 4
      let total := uint16At pkt 2
      if ihl < 20 ∨ total < ihl ∨ pkt.length < total then none
      else
        -- only the first fragment carries ports
        let l4 := if uint16At pkt 6 % 0x2000 = 0 then slice pkt ihl total else []
        some (withPorts (addrFrom4 (slice pkt 12 16)) (addrFrom4 (slice pkt 16 20)) (byteAt pkt 9) l4)
  else if byteAt pkt 0 >>> 4 = 6 then
    if pkt.length < 40 then none
    else
      let payloadLen := uint16At pkt 4
      if pkt.length < 40 + payloadLen then none
      else
        some (withPorts (addrFrom16 (slice pkt 8 24)) (addrFrom16 (slice pkt 24 40)) (byteAt pkt 6)
          (slice pkt 40 (40 + payloadLen)))
  else none

def IpPacketInfo.udpPayload (i : IpPacketInfo) : Option Bytes :=
  if i.proto ≠ ipProtoUDP ∨ i.l4.length < 8 then none
  else
    let n := uint16At i.l4 4
    if n < 8 ∨ i.l4.length < n then none else some (slice i.l4 8 n)

end Parsing

section Building

def checksumFold (sum : Nat) : Nat := 0xffff - fold sum

/-- The sum is a uint32. -/
def checksumAdd (sum : Nat) : Bytes → Nat
  | [] => sum
  | [a] => (sum + a.toNat * 256) % 2 ^ 32
  | a :: b :: rest => checksumAdd ((sum + (a.toNat * 256 + b.toNat)) % 2 ^ 32) rest

def v4Front (total sum : Nat) : Bytes :=
  [0x45, 0] ++ bigEndianBytes 2 total ++ [0, 0, 0, 0, 64, ipProtoUDP] ++ bigEndianBytes 2 sum

def v4Header (total sum : Nat) (s d : Bytes) : Bytes := v4Front total sum ++ s ++ d

def v6Front (udpLen : Nat) : Bytes := [0x60, 0, 0, 0] ++ bigEndianBytes 2 udpLen ++ [ipProtoUDP, 64]

def v6Header (udpLen : Nat) (s d : Bytes) : Bytes := v6Front udpLen ++ s ++ d

variable (src dst : UInt16) (payload : Bytes)

def segment (sum : Nat) : Bytes :=
  bigEndianBytes 2 src.toNat ++ bigEndianBytes 2 dst.toNat ++ bigEndianBytes 2 (8 + payload.length) ++
    bigEndianBytes 2 sum ++ payload

def pseudoSum (addrs : Bytes) : Nat :=
  (checksumAdd 0 addrs + (ipProtoUDP.toNat + (8 + payload.length))) % 2 ^ 32

def segmentSum (addrs : Bytes) : Nat :=
  let sum := checksumFold (checksumAdd (pseudoSum payload addrs) (segment src dst payload 0))
  if sum = 0 then 0xffff else sum

def v4Packet (s d : Bytes) : Bytes :=
  let total := 20 + (8 + payload.length)
  v4Header total (checksumFold (checksumAdd 0 (v4Header total 0 s d))) s d ++
    segment src dst payload (segmentSum src dst payload (s ++ d))

def v6Packet (s d : Bytes) : Bytes :=
  v6Header (8 + payload.length) s d ++ segment src dst payload (segmentSum src dst payload (s ++ d))

end Building

/-- `none` where As4 panics. -/
def buildUDPPacket (src dst : AddrPort) (payload : Bytes) : Option Bytes :=
  if src.addr.is4 then
    (as4 src.addr).bind fun s => (as4 dst.addr).map fun d => v4Packet src.port dst.port payload s d
  else some (v6Packet src.port dst.port payload (as16 src.addr) (as16 dst.addr))

section Words

theorem word_sum_big_endian (fits : n < 65536) : wordSum (bigEndianBytes 2 n) = n := by
  have high : (UInt8.ofNat (n / 256 % 256)).toNat = n / 256 % 256 := UInt8.toNat_ofNat_of_lt (Nat.mod_lt _ (by decide))
  have low : (UInt8.ofNat (n % 256)).toNat = n % 256 := UInt8.toNat_ofNat_of_lt (Nat.mod_lt _ (by decide))
  simp only [bigEndianBytes, List.nil_append, List.singleton_append, wordSum, high, low]
  omega

theorem checksum_add_exact (fits : sum + wordSum s < 2 ^ 32) : checksumAdd sum s = sum + wordSum s := by
  induction s using wordSum.induct generalizing sum with
  | case1 => rfl
  | case2 a =>
    simp only [wordSum] at fits
    exact Nat.mod_eq_of_lt fits
  | case3 a b rest ih =>
    rw [wordSum, ← Nat.add_assoc] at fits
    have small : sum + (a.toNat * 256 + b.toNat) < 2 ^ 32 := Nat.lt_of_le_of_lt (Nat.le_add_right _ _) fits
    rw [checksumAdd, Nat.mod_eq_of_lt small, ih fits, wordSum, Nat.add_assoc]

theorem slice_at (shape : s = a ++ b ++ c) (start : a.length = i) (stop : i + b.length = j) : slice s i j = b := by
  subst shape start stop
  simp [slice, List.take_append]

theorem uint16_at (shape : s = a ++ bigEndianBytes 2 n ++ c) (start : a.length = i)
    (fits : n < 65536) : uint16At s i = n := by
  rw [uint16At, slice_at shape start (by rw [big_endian_length])]
  exact big_endian_bytes 2 n fits

end Words

section Delivery
variable {payload : Bytes} {src dst : UInt16}

theorem addr_from_as4 (word : BitVec 32) : addrFrom4 (bigEndianBytes 4 word.toNat) = .v4 word := by
  rw [addrFrom4, big_endian_bytes 4 word.toNat word.isLt, BitVec.ofNat_toNat, BitVec.setWidth_eq]

theorem addr_from_as16 (word : BitVec 128) : addrFrom16 (bigEndianBytes 16 word.toNat) = .v6 word [] := by
  rw [addrFrom16, big_endian_bytes 16 word.toNat word.isLt, BitVec.ofNat_toNat, BitVec.setWidth_eq]

theorem segment_length (sum : Nat) : (segment src dst payload sum).length = 8 + payload.length := by
  simp only [segment, List.length_append, big_endian_length]

theorem v4_front_length (total sum : Nat) : (v4Front total sum).length = 12 := rfl

theorem v6_front_length (udpLen : Nat) : (v6Front udpLen).length = 8 := rfl

theorem v4_header_length (total sum : Nat) (s4 : s.length = 4) (d4 : d.length = 4) :
    (v4Header total sum s d).length = 20 := by
  rw [v4Header, List.length_append, List.length_append, v4_front_length, s4, d4]

theorem v6_header_length (udpLen : Nat) (s16 : s.length = 16) (d16 : d.length = 16) :
    (v6Header udpLen s d).length = 40 := by
  rw [v6Header, List.length_append, List.length_append, v6_front_length, s16, d16]

theorem segment_ports (a b : Addr) (sum : Nat) :
    withPorts a b ipProtoUDP (segment src dst payload sum) =
      ⟨⟨b, ipProtoUDP, dst⟩, a, segment src dst payload sum, src, true⟩ := by
  have first : uint16At (segment src dst payload sum) 0 = src.toNat :=
    uint16_at (a := []) (by simp [segment]; rfl) rfl src.toNat_lt
  have second : uint16At (segment src dst payload sum) 2 = dst.toNat :=
    uint16_at (a := bigEndianBytes 2 src.toNat) (by simp [segment]; rfl) (big_endian_length _ _) dst.toNat_lt
  have long : 8 ≤ (segment src dst payload sum).length := by
    rw [segment_length]
    omega
  rw [withPorts, if_pos ⟨Or.inr rfl, long⟩, first, second, UInt16.ofNat_toNat, UInt16.ofNat_toNat]

theorem segment_payload {info : IpPacketInfo} (proto : info.proto = ipProtoUDP)
    (l4 : info.l4 = segment src dst payload sum) (fits : 8 + payload.length < 65536) :
    info.udpPayload = some payload := by
  have length : uint16At (segment src dst payload sum) 4 = 8 + payload.length :=
    uint16_at (a := bigEndianBytes 2 src.toNat ++ bigEndianBytes 2 dst.toNat) (by simp [segment]; rfl)
      (by simp [big_endian_length]) fits
  have body : slice (segment src dst payload sum) 8 (8 + payload.length) = payload :=
    slice_at (a := bigEndianBytes 2 src.toNat ++ bigEndianBytes 2 dst.toNat ++
      bigEndianBytes 2 (8 + payload.length) ++ bigEndianBytes 2 sum) (c := []) (by simp [segment])
      (by simp [big_endian_length]) rfl
  unfold IpPacketInfo.udpPayload
  rw [l4, segment_length, if_neg (by simp [proto])]
  simp [length, body]

section Layouts
theorem parse_v4 (shape : pkt = v4Header total sum s d ++ l4) (whole : 20 + l4.length = total)
    (s4 : s.length = 4) (d4 : d.length = 4) (fits : total < 65536) :
    parseIPPacket pkt = some (withPorts (addrFrom4 s) (addrFrom4 d) ipProtoUDP l4) := by
  subst whole
  have length : pkt.length = 20 + l4.length := by
    rw [shape, List.length_append, v4_header_length _ _ s4 d4]
  have rest : slice pkt 20 (20 + l4.length) = l4 :=
    slice_at (c := []) (by rw [shape, List.append_nil]) (v4_header_length _ _ s4 d4) rfl
  have total : uint16At pkt 2 = 20 + l4.length :=
    uint16_at (a := [0x45, 0]) (by rw [shape]; simp [v4Header, v4Front]; rfl) rfl fits
  have first : slice pkt 12 16 = s :=
    slice_at (by rw [shape, v4Header, List.append_assoc _ d]) (v4_front_length _ _) (by rw [s4])
  have second : slice pkt 16 20 = d :=
    slice_at (by rw [shape, v4Header]) (by rw [List.length_append, v4_front_length, s4]) (by rw [d4])
  have version : byteAt pkt 0 = 0x45 := by rw [shape]; rfl
  have fragment : uint16At pkt 6 = 0 := by rw [shape]; rfl
  have proto : byteAt pkt 9 = ipProtoUDP := by rw [shape]; rfl
  have ihl : ((0x45 : UInt8) &&& 0x0f).toNat * 4 = 20 := by decide
  unfold parseIPPacket
  rw [if_neg (by omega), version, if_pos (by decide), if_neg (by omega)]
  simp only [ihl, total, first, second, fragment, proto, length, Nat.zero_mod, ↓reduceIte, rest]
  rw [if_neg (by omega)]

theorem parse_v6 (shape : pkt = v6Header udpLen s d ++ l4) (whole : l4.length = udpLen)
    (s16 : s.length = 16) (d16 : d.length = 16) (fits : udpLen < 65536) :
    parseIPPacket pkt = some (withPorts (addrFrom16 s) (addrFrom16 d) ipProtoUDP l4) := by
  subst whole
  have length : pkt.length = 40 + l4.length := by
    rw [shape, List.length_append, v6_header_length _ s16 d16]
  have rest : slice pkt 40 (40 + l4.length) = l4 :=
    slice_at (c := []) (by rw [shape, List.append_nil]) (v6_header_length _ s16 d16) rfl
  have payloadLen : uint16At pkt 4 = l4.length :=
    uint16_at (a := [0x60, 0, 0, 0]) (by rw [shape]; simp [v6Header, v6Front]; rfl) rfl fits
  have first : slice pkt 8 24 = s :=
    slice_at (by rw [shape, v6Header, List.append_assoc _ d]) (v6_front_length _) (by rw [s16])
  have second : slice pkt 24 40 = d :=
    slice_at (by rw [shape, v6Header]) (by rw [List.length_append, v6_front_length, s16]) (by rw [d16])
  have version : byteAt pkt 0 = 0x60 := by rw [shape]; rfl
  have proto : byteAt pkt 6 = ipProtoUDP := by rw [shape]; rfl
  unfold parseIPPacket
  rw [if_neg (by omega), version, if_neg (by decide), if_pos (by decide), if_neg (by omega)]
  simp only [payloadLen, first, second, proto, length, rest, Nat.lt_irrefl, ↓reduceIte]

end Layouts

end Delivery

section Checksums
variable {payload : Bytes} {src dst : UInt16}

theorem word_sum_v4_header (s4 : s.length = 4) (total16 : total < 65536) (sum16 : sum < 65536) :
    wordSum (v4Header total sum s d) = 0x4500 + total + 0x4011 + sum + wordSum s + wordSum d := by
  unfold v4Header v4Front
  rw [word_sum_append _ d (by simp [big_endian_length, s4]), word_sum_append _ s (by simp [big_endian_length]),
    word_sum_append _ (bigEndianBytes 2 sum) (by simp [big_endian_length]),
    word_sum_append _ [0, 0, 0, 0, 64, ipProtoUDP] (by simp [big_endian_length]),
    word_sum_append _ (bigEndianBytes 2 total) rfl, word_sum_big_endian total16, word_sum_big_endian sum16]
  rfl

theorem word_sum_segment (src dst : UInt16) (length16 : 8 + payload.length < 65536) (sum16 : sum < 65536) :
    wordSum (segment src dst payload sum) =
      src.toNat + dst.toNat + (8 + payload.length) + sum + wordSum payload := by
  unfold segment
  rw [word_sum_append _ payload (by simp [big_endian_length]),
    word_sum_append _ (bigEndianBytes 2 sum) (by simp [big_endian_length]),
    word_sum_append _ (bigEndianBytes 2 (8 + payload.length)) (by simp [big_endian_length]),
    word_sum_append _ (bigEndianBytes 2 dst.toNat) (by simp [big_endian_length]),
    word_sum_big_endian src.toNat_lt, word_sum_big_endian dst.toNat_lt, word_sum_big_endian length16,
    word_sum_big_endian sum16]

/-- The header a receiver puts before a UDP segment to check it: the addresses, the
    protocol and the length, in the layout of the IP version. -/
def pseudoHeader (v4 : Bool) (addrs : Bytes) (udpLen : Nat) : Bytes :=
  if v4 then addrs ++ [0, ipProtoUDP] ++ bigEndianBytes 2 udpLen
  else addrs ++ bigEndianBytes 4 udpLen ++ [0, 0, 0, ipProtoUDP]

theorem big_endian_four (fits : n < 65536) : bigEndianBytes 4 n = [0, 0] ++ bigEndianBytes 2 n := by
  have high : n / 256 / 256 = 0 := by omega
  simp [bigEndianBytes, high]

theorem word_sum_pseudo (v4 : Bool) (even : addrs.length % 2 = 0) (fits : udpLen < 65536) (l4 : Bytes) :
    wordSum (pseudoHeader v4 addrs udpLen ++ l4) = wordSum addrs + (ipProtoUDP.toNat + udpLen) + wordSum l4 := by
  unfold pseudoHeader
  cases v4 with
  | true =>
    have even' : (addrs ++ [0, ipProtoUDP]).length % 2 = 0 := by
      simp only [List.length_append, List.length_cons, List.length_nil]
      omega
    have proto : wordSum [0, ipProtoUDP] = ipProtoUDP.toNat := rfl
    rw [if_pos rfl, List.append_assoc, word_sum_append _ _ even', word_sum_append _ _ even,
      word_sum_append _ l4 (by rw [big_endian_length]), word_sum_big_endian fits, proto]
    omega
  | false =>
    have even' : (addrs ++ bigEndianBytes 4 udpLen ++ [0, 0, 0, ipProtoUDP]).length % 2 = 0 := by
      simp only [List.length_append, big_endian_length, List.length_cons, List.length_nil]
      omega
    have proto : wordSum [0, 0, 0, ipProtoUDP] = ipProtoUDP.toNat := rfl
    have length : wordSum (bigEndianBytes 4 udpLen) = udpLen := by
      rw [big_endian_four fits, word_sum_append _ _ rfl, word_sum_big_endian fits]
      exact Nat.zero_add _
    rw [if_neg (by simp), word_sum_append _ l4 even', List.append_assoc, word_sum_append _ _ even,
      word_sum_append _ _ (by rw [big_endian_length]), length, proto]
    omega

theorem v4_header_folds (s4 : s.length = 4) (d4 : d.length = 4) (total16 : total < 65536) :
    fold (wordSum (v4Header total (checksumFold (checksumAdd 0 (v4Header total 0 s d))) s d)) = 0xffff := by
  have bound := word_sum_le (v4Header total 0 s d)
  rw [v4_header_length _ _ s4 d4] at bound
  have zeroed := word_sum_v4_header (d := d) s4 total16 (show 0 < 65536 by decide)
  have exact : checksumAdd 0 (v4Header total 0 s d) = wordSum (v4Header total 0 s d) := by
    rw [checksum_add_exact (by omega), Nat.zero_add]
  have small : checksumFold (wordSum (v4Header total 0 s d)) < 65536 := by
    unfold checksumFold
    omega
  rw [exact, word_sum_v4_header s4 total16 small]
  have same : 0x4500 + total + 0x4011 + checksumFold (wordSum (v4Header total 0 s d)) + wordSum s + wordSum d =
      wordSum (v4Header total 0 s d) + checksumFold (wordSum (v4Header total 0 s d)) := by omega
  rw [same]
  exact fold_complement (by omega)

def segmentTotal (src dst : UInt16) (payload addrs : Bytes) : Nat :=
  wordSum addrs + (ipProtoUDP.toNat + (8 + payload.length)) + wordSum (segment src dst payload 0)

theorem segment_sum_folds (small : segmentTotal src dst payload addrs < 2 ^ 32) :
    0 < segmentSum src dst payload addrs ∧ segmentSum src dst payload addrs < 65536 ∧
      fold (segmentTotal src dst payload addrs + segmentSum src dst payload addrs) = 0xffff := by
  have pseudo : pseudoSum payload addrs = wordSum addrs + (ipProtoUDP.toNat + (8 + payload.length)) := by
    have front := Nat.lt_of_le_of_lt (Nat.le_add_right _ _) small
    have addresses := Nat.lt_of_le_of_lt (Nat.le_add_right _ _) front
    rw [pseudoSum, checksum_add_exact (by rwa [Nat.zero_add]), Nat.zero_add, Nat.mod_eq_of_lt front]
  have total : checksumAdd (pseudoSum payload addrs) (segment src dst payload 0) =
      segmentTotal src dst payload addrs := by
    rw [pseudo, checksum_add_exact small, segmentTotal]
  have positive : 0 < segmentTotal src dst payload addrs := by
    unfold segmentTotal
    omega
  unfold segmentSum
  rw [total]
  dsimp only
  split
  · rename_i zero
    exact ⟨by decide, by decide, fold_all_ones zero⟩
  · rename_i filled
    refine ⟨Nat.pos_of_ne_zero filled, ?_, fold_complement positive⟩
    unfold checksumFold
    omega

theorem segment_total_small (src dst : UInt16) (short : addrs.length ≤ 32)
    (fits : 8 + payload.length < 65536) : segmentTotal src dst payload addrs < 2 ^ 32 := by
  have first := word_sum_le addrs
  have second := word_sum_le (segment src dst payload 0)
  rw [segment_length] at second
  have proto : ipProtoUDP.toNat = 17 := rfl
  unfold segmentTotal
  omega

theorem segment_verifies (v4 : Bool) (even : addrs.length % 2 = 0) (short : addrs.length ≤ 32)
    (fits : 8 + payload.length < 65536) :
    fold (wordSum (pseudoHeader v4 addrs (8 + payload.length) ++
      segment src dst payload (segmentSum src dst payload addrs))) = 0xffff := by
  obtain ⟨_, sum16, folds⟩ := segment_sum_folds (segment_total_small src dst short fits)
  have zeroed := word_sum_segment src dst fits (show 0 < 65536 by decide)
  have same : wordSum (pseudoHeader v4 addrs (8 + payload.length) ++
      segment src dst payload (segmentSum src dst payload addrs)) =
        segmentTotal src dst payload addrs + segmentSum src dst payload addrs := by
    rw [word_sum_pseudo v4 even fits, word_sum_segment src dst fits sum16, segmentTotal, zeroed]
    omega
  rw [same, folds]

end Checksums

section Packets

def SameFamily : Addr → Addr → Prop
  | .v4 _, .v4 _ => True
  | .v6 _ _, .v6 _ _ => True
  | _, _ => False

def maxPayload (a : Addr) : Nat := if a.is4 then 65507 else 65527

def addresses (v4 : Bool) (pkt : Bytes) : Bytes := if v4 then slice pkt 12 20 else slice pkt 8 40

structure Delivered (src dst : AddrPort) (payload pkt : Bytes) (info : IpPacketInfo) : Prop where
  parsed : parseIPPacket pkt = some info
  source : info.src = unzoned src.addr
  target : info.dst = unzoned dst.addr
  ports : info.hasL4Ports = true ∧ info.srcPort = src.port ∧ info.dstPort = dst.port
  proto : info.proto = ipProtoUDP
  body : info.udpPayload = some payload
  header : src.addr.is4 = true → fold (wordSum (pkt.take 20)) = 0xffff
  segment : fold (wordSum (pseudoHeader src.addr.is4 (addresses src.addr.is4 pkt) (8 + payload.length) ++ info.l4)) =
    0xffff
  stored : uint16At info.l4 6 ≠ 0

def wireAddr (a : Addr) : Bytes := if a.is4 then (as4 a).getD [] else as16 a

/-- The sums buildUDPPacket accumulates, without wrapping around: over the IPv4 header,
    over the addresses, and over the segment on top of the pseudo-header. -/
def exactSums (src dst : AddrPort) (payload : Bytes) : List Nat :=
  let s := wireAddr src.addr
  let d := wireAddr dst.addr
  [if src.addr.is4 then wordSum (v4Header (20 + (8 + payload.length)) 0 s d) else 0, wordSum (s ++ d),
    segmentTotal src.port dst.port payload (s ++ d)]

variable {payload : Bytes}

theorem stored_sum {src dst : UInt16} (sum16 : sum < 65536) : uint16At (segment src dst payload sum) 6 = sum :=
  uint16_at (a := bigEndianBytes 2 src.toNat ++ bigEndianBytes 2 dst.toNat ++ bigEndianBytes 2 (8 + payload.length))
    (by simp [segment]; rfl) (by simp [big_endian_length]) sum16

theorem delivered_of_segment (src dst : AddrPort) (fits : 8 + payload.length < 65536)
    (even : addrs.length % 2 = 0) (short : addrs.length ≤ 32)
    (parsed : parseIPPacket pkt = some (withPorts (unzoned src.addr) (unzoned dst.addr) ipProtoUDP
      (segment src.port dst.port payload (segmentSum src.port dst.port payload addrs))))
    (header : src.addr.is4 = true → fold (wordSum (pkt.take 20)) = 0xffff)
    (inside : addresses src.addr.is4 pkt = addrs) : ∃ info, Delivered src dst payload pkt info := by
  obtain ⟨positive, sum16, _⟩ := segment_sum_folds (segment_total_small src.port dst.port short fits)
  rw [segment_ports] at parsed
  refine ⟨_, parsed, rfl, rfl, ⟨rfl, rfl, rfl⟩, rfl, segment_payload rfl rfl fits, header, ?_, ?_⟩
  · rw [inside]
    exact segment_verifies _ even short fits
  · rw [stored_sum sum16]
    exact Nat.ne_of_gt positive

section Versions
variable {src dst : UInt16} {payload : Bytes}

theorem v4_packet_parsed (src dst : UInt16) (s4 : s.length = 4) (d4 : d.length = 4) (fits : payload.length ≤ 65507) :
    parseIPPacket (v4Packet src dst payload s d) = some (withPorts (addrFrom4 s) (addrFrom4 d) ipProtoUDP
      (segment src dst payload (segmentSum src dst payload (s ++ d)))) :=
  parse_v4 rfl (by rw [segment_length]) s4 d4 (by omega)

theorem v4_packet_header (s4 : s.length = 4) (d4 : d.length = 4) (fits : payload.length ≤ 65507) :
    fold (wordSum ((v4Packet src dst payload s d).take 20)) = 0xffff := by
  rw [v4Packet, List.take_left' (v4_header_length _ _ s4 d4)]
  exact v4_header_folds s4 d4 (by omega)

theorem v4_packet_addresses (s4 : s.length = 4) (d4 : d.length = 4) :
    addresses true (v4Packet src dst payload s d) = s ++ d := by
  refine slice_at (a := v4Front _ _) (by rw [v4Packet, v4Header, List.append_assoc (v4Front _ _)]) rfl ?_
  rw [List.length_append, s4, d4]

theorem v6_packet_parsed (src dst : UInt16) (s16 : s.length = 16) (d16 : d.length = 16)
    (fits : payload.length ≤ 65527) :
    parseIPPacket (v6Packet src dst payload s d) = some (withPorts (addrFrom16 s) (addrFrom16 d) ipProtoUDP
      (segment src dst payload (segmentSum src dst payload (s ++ d)))) :=
  parse_v6 rfl (segment_length _) s16 d16 (by omega)

theorem v6_packet_addresses (s16 : s.length = 16) (d16 : d.length = 16) :
    addresses false (v6Packet src dst payload s d) = s ++ d := by
  refine slice_at (a := v6Front _) (by rw [v6Packet, v6Header, List.append_assoc (v6Front _)]) rfl ?_
  rw [List.length_append, s16, d16]

end Versions

theorem delivered_v4 (word word' : BitVec 32) (port port' : UInt16) (fits : payload.length ≤ 65507) :
    ∃ pkt info, buildUDPPacket ⟨.v4 word, port⟩ ⟨.v4 word', port'⟩ payload = some pkt ∧
      Delivered ⟨.v4 word, port⟩ ⟨.v4 word', port'⟩ payload pkt info := by
  have s4 := big_endian_length 4 word.toNat
  have d4 := big_endian_length 4 word'.toNat
  have both : (bigEndianBytes 4 word.toNat ++ bigEndianBytes 4 word'.toNat).length = 8 := by
    rw [List.length_append, s4, d4]
  have parsed := v4_packet_parsed port port' s4 d4 fits
  rw [addr_from_as4, addr_from_as4] at parsed
  obtain ⟨info, delivered⟩ := delivered_of_segment ⟨.v4 word, port⟩ ⟨.v4 word', port'⟩ (by omega)
    (by rw [both]) (by rw [both]; decide) parsed (fun _ => v4_packet_header s4 d4 fits) (v4_packet_addresses s4 d4)
  exact ⟨_, info, rfl, delivered⟩

theorem delivered_v6 (word word' : BitVec 128) (zone zone' : List UInt8) (port port' : UInt16)
    (fits : payload.length ≤ 65527) :
    ∃ pkt info, buildUDPPacket ⟨.v6 word zone, port⟩ ⟨.v6 word' zone', port'⟩ payload = some pkt ∧
      Delivered ⟨.v6 word zone, port⟩ ⟨.v6 word' zone', port'⟩ payload pkt info := by
  have s16 := big_endian_length 16 word.toNat
  have d16 := big_endian_length 16 word'.toNat
  have both : (bigEndianBytes 16 word.toNat ++ bigEndianBytes 16 word'.toNat).length = 32 := by
    rw [List.length_append, s16, d16]
  have parsed := v6_packet_parsed port port' s16 d16 fits
  rw [addr_from_as16, addr_from_as16] at parsed
  obtain ⟨info, delivered⟩ := delivered_of_segment ⟨.v6 word zone, port⟩ ⟨.v6 word' zone', port'⟩
    (by omega) (by rw [both]) (by rw [both]) parsed (fun v4 => by cases v4) (v6_packet_addresses s16 d16)
  exact ⟨_, info, rfl, delivered⟩

theorem exact_sums_small {src dst : AddrPort} (first : wireAddr src.addr = s) (second : wireAddr dst.addr = d)
    (header : src.addr.is4 = true → s.length = 4 ∧ d.length = 4) (short : (s ++ d).length ≤ 32)
    (fits : 8 + payload.length < 65536) : ∀ sum ∈ exactSums src dst payload, sum < 2 ^ 32 := by
  have addrs := word_sum_le (s ++ d)
  simp only [exactSums, first, second, List.forall_mem_cons]
  refine ⟨?_, by omega, segment_total_small _ _ short fits, by simp⟩
  split
  · rename_i v4
    have bound := word_sum_le (v4Header (20 + (8 + payload.length)) 0 s d)
    rw [v4_header_length _ _ (header v4).1 (header v4).2] at bound
    omega
  · decide

/-- A packet built between two addresses of a family reads back as what it was built
    from (zones are not on the wire), its checksums verify, and no sum wraps around. -/
theorem udp_packets_delivered (src dst : AddrPort) (payload : Bytes) (family : SameFamily src.addr dst.addr)
    (fits : payload.length ≤ maxPayload src.addr) :
    (∃ pkt info, buildUDPPacket src dst payload = some pkt ∧ Delivered src dst payload pkt info) ∧
      ∀ sum ∈ exactSums src dst payload, sum < 2 ^ 32 := by
  obtain ⟨a, port⟩ := src
  obtain ⟨b, port'⟩ := dst
  cases a with
  | zero => exact False.elim family
  | v4 word =>
    cases b with
    | zero => exact False.elim family
    | v6 => exact False.elim family
    | v4 word' =>
      have small : payload.length ≤ 65507 := fits
      have s4 := big_endian_length 4 word.toNat
      have d4 := big_endian_length 4 word'.toNat
      refine ⟨delivered_v4 word word' port port' small, exact_sums_small rfl rfl (fun _ => ⟨s4, d4⟩) ?_ (by omega)⟩
      rw [List.length_append]
      exact Nat.le_trans (Nat.le_of_eq (congrArg₂ (· + ·) s4 d4)) (by decide)
  | v6 word zone =>
    cases b with
    | zero => exact False.elim family
    | v4 => exact False.elim family
    | v6 word' zone' =>
      have small : payload.length ≤ 65527 := fits
      have s16 := big_endian_length 16 word.toNat
      have d16 := big_endian_length 16 word'.toNat
      refine ⟨delivered_v6 word word' zone zone' port port' small,
        exact_sums_small rfl rfl (fun v4 => by cases v4) ?_ (by omega)⟩
      rw [List.length_append]
      exact Nat.le_of_eq (congrArg₂ (· + ·) s16 d16)

def oddPayload : Bytes := text "hello, odd length"

def resolver4 : AddrPort := ⟨.v4 0x64646464#32, 53⟩

def client4 : AddrPort := ⟨.v4 0x64656667#32, 5353⟩

def resolver6 : AddrPort := ⟨.v6 0xfd7a115ca1e000000000000000000053#128 [], 53⟩

def client6 : AddrPort := ⟨.v6 0xfd7a115ca1e000000000000000000007#128 [], 5353⟩

theorem odd_packets_delivered :
    (∃ pkt info, buildUDPPacket resolver4 client4 oddPayload = some pkt ∧
      Delivered resolver4 client4 oddPayload pkt info) ∧
    ∃ pkt info, buildUDPPacket resolver6 client6 [] = some pkt ∧ Delivered resolver6 client6 [] pkt info :=
  ⟨(udp_packets_delivered resolver4 client4 oddPayload trivial (by decide)).1,
    (udp_packets_delivered resolver6 client6 [] trivial (by decide)).1⟩

/-- A link-local address with a zone comes back without it. -/
theorem zone_not_carried :
    ∃ src dst : AddrPort, ∃ payload, SameFamily src.addr dst.addr ∧ payload.length ≤ maxPayload src.addr ∧
      ∃ info, (buildUDPPacket src dst payload).bind parseIPPacket = some info ∧ info.src ≠ src.addr := by
  refine ⟨⟨.v6 0xfe800000000000000000000000000001#128 (text "en0"), 53⟩, client6, [], trivial, by decide, ?_⟩
  have came : ((buildUDPPacket ⟨.v6 0xfe800000000000000000000000000001#128 (text "en0"), 53⟩ client6 []).bind
      parseIPPacket).map (fun info => info.src) = some (.v6 0xfe800000000000000000000000000001#128 []) := by
    decide +kernel
  obtain ⟨info, parsed, src⟩ := Option.map_eq_some_iff.1 came
  refine ⟨info, parsed, ?_⟩
  rw [src]
  decide

end Packets

end UdpPackets
