import JoshOS.Net.Proto

/-!
Frames built by the stack and read back by it.

* `udp_frame_round_trip`: the three layers together, behind any padding.
-/

open List OnesComplement

namespace JoshOS.Net

/-! ### Words read back -/

/-- A word is read back from the two bytes `write_be16` makes of it. -/
lemma readBe16_of_bytes {p : List UInt8} {offset : ℕ} {value : UInt16}
    (hhigh : p.getD offset 0 = UInt8.ofNat (value.toNat / 256))
    (hlow : p.getD (offset + 1) 0 = UInt8.ofNat value.toNat) : readBe16 p offset = value := by
  have hlt := value.toNat_lt
  have hsplit : 256 * (value.toNat / 256 % 2 ^ 8) + value.toNat % 2 ^ 8 = value.toNat := by omega
  rw [readBe16, hhigh, hlow, UInt8.toNat_ofNat', UInt8.toNat_ofNat', hsplit, UInt16.ofNat_toNat]

@[simp] lemma length_writeBe16 (value : UInt16) : (writeBe16 value).length = 2 := rfl

lemma wordSum_writeBe16_append (value : UInt16) (rest : List UInt8) :
    wordSum (writeBe16 value ++ rest) = value.toNat + wordSum rest := by
  have hlt := value.toNat_lt
  simp only [writeBe16, cons_append, nil_append, wordSum_cons_cons, UInt8.toNat_ofNat']
  omega

/-! ### Checksums -/

/-- The loop of `checksum_add` keeps the exact sum modulo `2 ^ 32`. -/
lemma addWords_eq_mod {sum : ℕ} (hsum : sum < 2 ^ 32) (data : List UInt8) :
    addWords sum data = (sum + wordSum data) % 2 ^ 32 := by
  induction data using wordSum.induct generalizing sum with
  | case1 => exact (Nat.mod_eq_of_lt hsum).symm
  | case2 a => rfl
  | case3 a b rest ih =>
    rw [addWords, ih (Nat.mod_lt _ (by norm_num)), wordSum_cons_cons, Nat.mod_add_mod,
      Nat.add_assoc]

/-- A string short enough not to make the 32-bit sum wrap is added exactly. -/
lemma checksumAdd_represents {r s : ℕ} {data : List UInt8} (h : Represents r s)
    (hlength : data.length ≤ 65535) : Represents (checksumAdd r data) (s + wordSum data) := by
  have hlt := h.lt
  have hsum := wordSum_le data
  have hhalf : (data.length + 1) / 2 ≤ 32768 := by omega
  have hbound : r + wordSum data < 2 ^ 32 := by omega
  rw [checksumAdd, addWords_eq_mod (by omega), Nat.mod_eq_of_lt hbound]
  exact h.add le_rfl hbound

lemma checksumFinish_complements {r s : ℕ} (h : Represents r s) :
    Complements (checksumFinish r).toNat s := by
  have hlt := h.lt
  have hfold : foldCarries foldRounds r = r := by
    rw [foldRounds, foldCarries, if_pos (by omega)]
  refine ⟨r, h, ?_⟩
  rw [checksumFinish, hfold, UInt16.toNat_ofNat']
  omega

lemma joshNetChecksum_complements {data : List UInt8} (hlength : data.length ≤ 65535) :
    Complements (joshNetChecksum data).toNat (wordSum data) := by
  have h := checksumAdd_represents Represents.zero hlength
  rw [Nat.zero_add] at h
  exact checksumFinish_complements h

/-- The exact sum of the words of the pseudo-header of a segment. -/
def pseudoSum (sourceIp destinationIp : Ipv4Address) (protocol : UInt8) (length : ℕ) : ℕ :=
  wordSum (List.ofFn sourceIp) + wordSum (List.ofFn destinationIp) +
    wordSum [0, protocol, UInt8.ofNat (length / 256), UInt8.ofNat length]

/-- Short pieces added one after the other are added exactly. -/
lemma foldl_checksumAdd_represents {pieces : List (List UInt8)}
    (hlength : ∀ piece ∈ pieces, piece.length ≤ 65535) {r s : ℕ} (h : Represents r s) :
    Represents (pieces.foldl checksumAdd r) (s + (pieces.map wordSum).sum) := by
  induction pieces generalizing r s with
  | nil => exact h
  | cons piece pieces ih =>
    rw [foldl_cons, map_cons, sum_cons, ← Nat.add_assoc]
    exact ih (fun q hq => hlength q (mem_cons_of_mem _ hq))
      (checksumAdd_represents h (hlength piece mem_cons_self))

/-- What `transport_checksum_ipv4` adds up, in order. -/
def transportPieces (sourceIp destinationIp : Ipv4Address) (protocol : UInt8)
    (segment : List UInt8) : List (List UInt8) :=
  [List.ofFn sourceIp, List.ofFn destinationIp,
    [0, protocol, UInt8.ofNat (segment.length / 256), UInt8.ofNat segment.length], segment]

lemma transportChecksumIpv4_eq (sourceIp destinationIp : Ipv4Address) (protocol : UInt8)
    (segment : List UInt8) :
    transportChecksumIpv4 sourceIp destinationIp protocol segment =
      checksumFinish
        ((transportPieces sourceIp destinationIp protocol segment).foldl checksumAdd 0) :=
  rfl

lemma length_of_mem_transportPieces {sourceIp destinationIp : Ipv4Address} {protocol : UInt8}
    {segment piece : List UInt8} (hlength : segment.length ≤ 65535)
    (h : piece ∈ transportPieces sourceIp destinationIp protocol segment) :
    piece.length ≤ 65535 := by
  simp only [transportPieces, mem_cons, not_mem_nil, or_false] at h
  rcases h with rfl | rfl | rfl | rfl
  · simp
  · simp
  · simp
  · exact hlength

lemma transportChecksumIpv4_complements (sourceIp destinationIp : Ipv4Address)
    (protocol : UInt8) {segment : List UInt8} (hlength : segment.length ≤ 65535) :
    Complements (transportChecksumIpv4 sourceIp destinationIp protocol segment).toNat
      (pseudoSum sourceIp destinationIp protocol segment.length + wordSum segment) := by
  have hsum : pseudoSum sourceIp destinationIp protocol segment.length + wordSum segment =
      0 + ((transportPieces sourceIp destinationIp protocol segment).map wordSum).sum := by
    simp only [transportPieces, pseudoSum, map_cons, map_nil, sum_cons,
      sum_nil]
    omega
  rw [hsum, transportChecksumIpv4_eq]
  exact checksumFinish_complements (foldl_checksumAdd_represents
    (fun _ hpiece => length_of_mem_transportPieces hlength hpiece) Represents.zero)

/-! ### The layers one by one -/

lemma joshEthParse_build (destination source : MacAddress) (ethertype : UInt16)
    (payload : List UInt8) :
    joshEthParse (ofFn destination ++ ofFn source ++ writeBe16 ethertype ++ payload) =
      .ok ⟨destination, source, ethertype, payload⟩ := by
  rw [joshEthParse, if_neg (by simp), drop_left' (by simp), readBe16_of_bytes rfl rfl]
  congr
  · funext i
    fin_cases i <;> rfl
  · funext i
    fin_cases i <;> rfl

section Ipv4

variable (protocol ttl : UInt8) (identification : UInt16) (source destination : Ipv4Address)

@[simp] lemma length_ipv4Header (payloadLength : ℕ) (checksum : UInt16) :
    (ipv4Header protocol ttl identification source destination payloadLength checksum).length =
      20 := by
  simp [ipv4Header]

/-- The checksum field of a header adds its value to the sum of the words. -/
lemma wordSum_ipv4Header (payloadLength : ℕ) (checksum : UInt16) :
    wordSum (ipv4Header protocol ttl identification source destination payloadLength checksum) =
      wordSum (ipv4Header protocol ttl identification source destination payloadLength 0) +
        checksum.toNat := by
  have hzero : (0 : UInt16).toNat = 0 := rfl
  simp only [ipv4Header, append_assoc, wordSum_writeBe16_append, cons_append,
    nil_append, wordSum_cons_cons]
  omega

/-- What is built is the header, with a checksum that makes it verify, and the payload. -/
lemma joshIpv4Build_eq {payload : List UInt8} {capacity : ℕ} (hlength : payload.length ≤ 65515)
    (hcapacity : 20 + payload.length ≤ capacity) :
    ∃ checksum,
      joshIpv4Build capacity protocol ttl identification source destination payload =
        some (ipv4Header protocol ttl identification source destination payload.length checksum ++
          payload) ∧
      joshNetChecksum (ipv4Header protocol ttl identification source destination payload.length
        checksum) = 0 := by
  refine ⟨_, if_neg (by omega), ?_⟩
  set header := ipv4Header protocol ttl identification source destination payload.length
  have hzero : Complements (joshNetChecksum (header 0)).toNat (wordSum (header 0)) :=
    joshNetChecksum_complements (by simp [header])
  have hstored : Complements (joshNetChecksum (header (joshNetChecksum (header 0)))).toNat
      (wordSum (header (joshNetChecksum (header 0)))) :=
    joshNetChecksum_complements (by simp [header])
  rw [wordSum_ipv4Header] at hstored
  exact UInt16.toNat_inj.mp (hzero.verify rfl hzero.add_pos hstored)

/-- A packet whose header verifies is read back, whatever follows it. -/
lemma joshIpv4Parse_header {payload : List UInt8} (hlength : payload.length ≤ 65515)
    {checksum : UInt16} (padding : List UInt8)
    (hsum : joshNetChecksum (ipv4Header protocol ttl identification source destination
      payload.length checksum) = 0) :
    joshIpv4Parse (ipv4Header protocol ttl identification source destination payload.length
      checksum ++ payload ++ padding) =
      .ok ⟨0, identification, 0x4000, ttl, protocol, source, destination, payload, 20⟩ := by
  set header := ipv4Header protocol ttl identification source destination payload.length
  rw [append_assoc]
  have hlong : (header checksum ++ (payload ++ padding)).length =
      20 + (payload.length + padding.length) := by
    simp [header]
  have hfirst : ((header checksum ++ (payload ++ padding)).getD 0 0).toNat = 69 := rfl
  have htotal : (readBe16 (header checksum ++ (payload ++ padding)) 2).toNat =
      20 + payload.length := by
    rw [readBe16_of_bytes rfl rfl, UInt16.toNat_ofNat']
    omega
  have hheader : (header checksum ++ (payload ++ padding)).take 20 = header checksum :=
    take_left' (by simp [header])
  have hpayload : ((header checksum ++ (payload ++ padding)).drop 20).take payload.length =
      payload := by
    rw [drop_left' (by simp [header]), take_left' rfl]
  simp only [joshIpv4Parse, hfirst, htotal, hlong, Nat.reduceDiv, Nat.reduceMod, Nat.reduceMul]
  rw [if_neg (by omega), if_neg (by omega), if_neg (by omega), if_neg (by omega), hheader,
    if_neg (by simp [hsum]), Nat.add_sub_cancel_left, hpayload, readBe16_of_bytes rfl rfl,
    readBe16_of_bytes rfl rfl]
  congr
  · funext i
    fin_cases i <;> rfl
  · funext i
    fin_cases i <;> rfl

end Ipv4

section Udp

variable (sourcePort destinationPort : UInt16) (payload : List UInt8)

@[simp] lemma length_udpSegment (checksum : UInt16) :
    (udpSegment sourcePort destinationPort payload checksum).length = 8 + payload.length := by
  simp [udpSegment]
  omega

/-- The checksum field of a segment adds its value to the sum of the words. -/
lemma wordSum_udpSegment (checksum : UInt16) :
    wordSum (udpSegment sourcePort destinationPort payload checksum) =
      wordSum (udpSegment sourcePort destinationPort payload 0) + checksum.toNat := by
  have hzero : (0 : UInt16).toNat = 0 := rfl
  simp only [udpSegment, append_assoc, wordSum_writeBe16_append]
  omega

/-- What is built is the segment with a non-zero checksum field, and it passes
`josh_udp_checksum_ipv4`. -/
lemma joshUdpBuildIpv4_eq (sourceIp destinationIp : Ipv4Address) {capacity : ℕ}
    (hlength : payload.length ≤ 65527) (hcapacity : 8 + payload.length ≤ capacity) :
    ∃ stored,
      joshUdpBuildIpv4 capacity sourceIp destinationIp sourcePort destinationPort payload =
        some (udpSegment sourcePort destinationPort payload stored) ∧
      joshUdpChecksumIpv4 sourceIp destinationIp
        (udpSegment sourcePort destinationPort payload stored) = 0 ∧ stored ≠ 0 := by
  refine ⟨_, if_neg (by omega), ?_⟩
  have hshort : ∀ checksum,
      (udpSegment sourcePort destinationPort payload checksum).length ≤ 65535 := by
    intro checksum
    rw [length_udpSegment]
    omega
  simp only [joshUdpChecksumIpv4, if_neg (not_lt.mpr (hshort _))]
  have hzero := transportChecksumIpv4_complements sourceIp destinationIp ipUdp (hshort 0)
  generalize transportChecksumIpv4 sourceIp destinationIp ipUdp
    (udpSegment sourcePort destinationPort payload 0) = checksum at hzero
  rw [length_udpSegment] at hzero
  have hfull (stored : UInt16) := by
    have h := transportChecksumIpv4_complements sourceIp destinationIp ipUdp (hshort stored)
    rw [wordSum_udpSegment, ← Nat.add_assoc, length_udpSegment] at h
    exact h
  by_cases hc : checksum = 0
  · -- The sum is stored in its other representation.
    subst hc
    rw [if_pos rfl]
    refine ⟨UInt16.toNat_inj.mp (hzero.verify (by decide) ?_ (hfull _)), by decide⟩
    exact Nat.add_pos_left hzero.pos _
  · rw [if_neg hc]
    exact ⟨UInt16.toNat_inj.mp (hzero.verify rfl hzero.add_pos (hfull _)), hc⟩

/-- A segment is read back from its own bytes. -/
lemma joshUdpParse_udpSegment (hlength : payload.length ≤ 65527) (checksum : UInt16) :
    joshUdpParse (udpSegment sourcePort destinationPort payload checksum) =
      .ok ⟨sourcePort, destinationPort, checksum, payload⟩ := by
  have hencoded : (readBe16 (udpSegment sourcePort destinationPort payload checksum) 4).toNat =
      8 + payload.length := by
    rw [readBe16_of_bytes rfl rfl, UInt16.toNat_ofNat']
    omega
  have hpayload : (udpSegment sourcePort destinationPort payload checksum).drop 8 = payload :=
    drop_left' (by simp)
  simp only [joshUdpParse, hencoded, length_udpSegment, hpayload]
  rw [if_neg (by omega), if_neg (by omega), Nat.add_sub_cancel_left, take_length,
    readBe16_of_bytes rfl rfl, readBe16_of_bytes rfl rfl, readBe16_of_bytes rfl rfl]

end Udp

/-! ### The three layers -/

/-- **A UDP frame is read back.**  Whatever the addresses, ports, time to live and
identification, and for every payload that fits an IPv4 packet, the frame built layer by
layer parses layer by layer to what went into it, also behind padding; and the segment found
in it passes the checksum with a non-zero field. -/
theorem udp_frame_round_trip (destinationMac sourceMac : MacAddress) (ethertype : UInt16)
    (protocol ttl : UInt8) (identification : UInt16) (sourceIp destinationIp : Ipv4Address)
    (sourcePort destinationPort : UInt16) (payload padding : List UInt8)
    (hpayload : payload.length ≤ 65507) (udpCapacity ipCapacity ethCapacity : ℕ)
    (hudp : 8 + payload.length ≤ udpCapacity) (hip : 28 + payload.length ≤ ipCapacity)
    (heth : 42 + payload.length ≤ ethCapacity) :
    ∃ segment packet frame e i u,
      joshUdpBuildIpv4 udpCapacity sourceIp destinationIp sourcePort destinationPort payload =
        some segment ∧
      joshIpv4Build ipCapacity protocol ttl identification sourceIp destinationIp segment =
        some packet ∧
      joshEthBuild ethCapacity destinationMac sourceMac ethertype packet = some frame ∧
      joshEthParse (frame ++ padding) = .ok e ∧
      joshIpv4Parse e.payload = .ok i ∧
      joshUdpParse i.payload = .ok u ∧
      e.destination = destinationMac ∧ e.source = sourceMac ∧ e.ethertype = ethertype ∧
      i.source = sourceIp ∧ i.destination = destinationIp ∧ i.protocol = protocol ∧
      i.ttl = ttl ∧ i.identification = identification ∧
      u.sourcePort = sourcePort ∧ u.destinationPort = destinationPort ∧ u.payload = payload ∧
      joshUdpChecksumIpv4 i.source i.destination i.payload = 0 ∧ u.checksum ≠ 0 := by
  obtain ⟨stored, hsegment, hverifies, hstored⟩ := joshUdpBuildIpv4_eq sourcePort
    destinationPort payload sourceIp destinationIp (by omega) hudp
  have hlength := length_udpSegment sourcePort destinationPort payload stored
  obtain ⟨checksum, hpacket, hheader⟩ := joshIpv4Build_eq protocol ttl identification sourceIp
    destinationIp (show (udpSegment sourcePort destinationPort payload stored).length ≤ 65515 by
      omega) (show _ ≤ ipCapacity by omega)
  refine ⟨_, _, _, ⟨destinationMac, sourceMac, ethertype, _⟩, ⟨_, _, _, _, _, _, _, _, _⟩,
    ⟨sourcePort, destinationPort, stored, payload⟩, hsegment, hpacket,
    if_neg ?_, ?_,
    joshIpv4Parse_header protocol ttl identification sourceIp destinationIp (by omega) padding
      hheader,
    joshUdpParse_udpSegment sourcePort destinationPort payload (by omega) stored,
    rfl, rfl, rfl, rfl, rfl, rfl, rfl, rfl, rfl, rfl, rfl, hverifies, hstored⟩
  · rw [List.length_append, length_ipv4Header]
    omega
  · rw [List.append_assoc]
    exact joshEthParse_build destinationMac sourceMac ethertype _

/-- A datagram of three bytes in a frame padded to the Ethernet minimum. -/
theorem udp_frame_round_trip_short :
    ∃ segment packet frame e i u,
      joshUdpBuildIpv4 11 ![10, 0, 2, 15] ![10, 0, 2, 3] 5000 53 [1, 2, 3] = some segment ∧
      joshIpv4Build 31 ipUdp 64 7 ![10, 0, 2, 15] ![10, 0, 2, 3] segment = some packet ∧
      joshEthBuild 45 (fun _ => 0xff) (fun _ => 2) 0x0800 packet = some frame ∧
      joshEthParse (frame ++ List.replicate 15 0) = .ok e ∧
      joshIpv4Parse e.payload = .ok i ∧
      joshUdpParse i.payload = .ok u ∧
      e.destination = (fun _ => 0xff) ∧ e.source = (fun _ => 2) ∧ e.ethertype = 0x0800 ∧
      i.source = ![10, 0, 2, 15] ∧ i.destination = ![10, 0, 2, 3] ∧ i.protocol = ipUdp ∧
      i.ttl = 64 ∧ i.identification = 7 ∧
      u.sourcePort = 5000 ∧ u.destinationPort = 53 ∧ u.payload = [1, 2, 3] ∧
      joshUdpChecksumIpv4 i.source i.destination i.payload = 0 ∧ u.checksum ≠ 0 :=
  udp_frame_round_trip _ _ _ _ _ _ _ _ _ _ _ _ (by decide) _ _ _ (by decide) (by decide)
    (by decide)

end JoshOS.Net
