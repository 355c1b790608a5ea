import JoshOS.Net.Wire

/-!
Checksums that verify, and headers that do not.

* `storeBe16_verifies`: a stored checksum makes its bytes sum to a multiple of `65535`.
* `AddsExactly`: no addition of a 32-bit sum wraps.
* `transport_checksums_verify`: TCP and UDP checksums under the IPv4 pseudo-header.
* `icmp_echo_reply`: what an echo request is answered with, and that nothing is written for
  anything else.
* `ipv4_bit_flip_caught`: a flipped bit of an accepted header is caught.
-/

open List OnesComplement

namespace JoshOS.Net

variable {p : List UInt8} {offset : ℕ}

/-! ### A word stored in place -/

@[simp] lemma length_storeBe16 (p : List UInt8) (offset : ℕ) (value : UInt16) :
    (storeBe16 p offset value).length = p.length := by
  simp [storeBe16]

lemma storeBe16_storeBe16 (p : List UInt8) (offset : ℕ) (value value' : UInt16) :
    storeBe16 (storeBe16 p offset value) offset value' = storeBe16 p offset value' := by
  simp only [storeBe16]
  rw [set_comm _ _ (Nat.succ_ne_self offset), set_set, set_set]

/-- A word stored at an even offset counts for its value. -/
lemma wordSum_storeBe16 (heven : offset % 2 = 0) (hlength : offset + 1 < p.length)
    (value : UInt16) :
    wordSum (storeBe16 p offset value) = wordSum (storeBe16 p offset 0) + value.toNat := by
  have hshare (value : UInt16) :
      wordSum (storeBe16 p offset value) + 256 * (p.getD offset 0).toNat +
        (p.getD (offset + 1) 0).toNat = wordSum p + value.toNat := by
    have hlt := value.toNat_lt
    have hhigh := wordSum_set p (show offset < p.length by omega)
      (UInt8.ofNat (value.toNat / 256))
    have hlow := wordSum_set (p.set offset (UInt8.ofNat (value.toNat / 256)))
      (show offset + 1 < _ by simpa using hlength) (UInt8.ofNat value.toNat)
    have hodd : (offset + 1) % 2 ≠ 0 := by omega
    have hkept : (p.set offset (UInt8.ofNat (value.toNat / 256))).getD (offset + 1) 0 =
        p.getD (offset + 1) 0 := by
      simp
    rw [weight, if_pos heven, UInt8.toNat_ofNat'] at hhigh
    rw [weight, if_neg hodd, UInt8.toNat_ofNat', hkept] at hlow
    rw [storeBe16]
    omega
  have hvalue := hshare value
  have hzero := hshare 0
  have : (0 : UInt16).toNat = 0 := rfl
  omega

/-! ### Transport checksums -/

/-- No addition of the words of `data` to the 32-bit `sum` wraps. -/
def AddsExactly : ℕ → List UInt8 → Prop
  | sum, [] => sum < 2 ^ 32
  | sum, [a] => sum + 256 * a.toNat < 2 ^ 32
  | sum, a :: b :: rest =>
    sum + (256 * a.toNat + b.toNat) < 2 ^ 32 ∧ AddsExactly (sum + (256 * a.toNat + b.toNat)) rest

/-- The sums only grow, so the last one decides. -/
lemma addsExactly_of_lt {sum : ℕ} {data : List UInt8} (h : sum + wordSum data < 2 ^ 32) :
    AddsExactly sum data := by
  induction data using wordSum.induct generalizing sum with
  | case1 | case2 => exact h
  | case3 a b rest ih =>
    rw [wordSum_cons_cons] at h
    exact ⟨by omega, ih (by omega)⟩

/-- A segment that covers its own checksum, stored at an even offset, verifies. -/
lemma transportChecksumIpv4_storeBe16 (sourceIp destinationIp : Ipv4Address) (protocol : UInt8)
    (heven : offset % 2 = 0) (hfield : offset + 1 < p.length) (hlength : p.length ≤ 65535) :
    transportChecksumIpv4 sourceIp destinationIp protocol
      (storeBe16 p offset (transportChecksumIpv4 sourceIp destinationIp protocol
        (storeBe16 p offset 0))) = 0 := by
  have hshort (value : UInt16) : (storeBe16 p offset value).length ≤ 65535 := by
    rwa [length_storeBe16]
  have hzero := transportChecksumIpv4_complements sourceIp destinationIp protocol (hshort 0)
  generalize transportChecksumIpv4 sourceIp destinationIp protocol (storeBe16 p offset 0) =
    checksum at hzero
  have hstored := transportChecksumIpv4_complements sourceIp destinationIp protocol
    (hshort checksum)
  rw [wordSum_storeBe16 heven hfield, ← Nat.add_assoc] at hstored
  rw [length_storeBe16] at hzero hstored
  exact UInt16.toNat_inj.mp (hzero.verify rfl hzero.add_pos hstored)

/-- **Transport checksums verify.**  A TCP segment with its checksum stored in place sums to
zero, so does every UDP segment that is built, whose field is not zero; and none of the
additions that make up a checksum wraps. -/
theorem transport_checksums_verify (sourceIp destinationIp : Ipv4Address) :
    (∀ segment : List UInt8, 18 ≤ segment.length → segment.length ≤ 65535 →
      let zeroed := storeBe16 segment 16 0
      joshTcpChecksumIpv4 sourceIp destinationIp
        (storeBe16 zeroed 16 (joshTcpChecksumIpv4 sourceIp destinationIp zeroed)) = 0) ∧
    (∀ capacity sourcePort destinationPort payload segment,
      joshUdpBuildIpv4 capacity sourceIp destinationIp sourcePort destinationPort payload =
        some segment →
      readBe16 segment 6 ≠ 0 ∧ joshUdpChecksumIpv4 sourceIp destinationIp segment = 0) ∧
    (∀ (protocol : UInt8) (segment : List UInt8),
      let pieces := transportPieces sourceIp destinationIp protocol segment
      transportChecksumIpv4 sourceIp destinationIp protocol segment =
          checksumFinish (pieces.foldl checksumAdd 0) ∧
        (segment.length ≤ 65535 → ∀ before piece after, pieces = before ++ piece :: after →
          AddsExactly (before.foldl checksumAdd 0) piece)) := by
  refine ⟨?_, ?_, ?_⟩
  · intro segment hfield hlength zeroed
    have hshort (value : UInt16) : ¬ 65535 < (storeBe16 segment 16 value).length := by
      rw [length_storeBe16]
      omega
    simp only [zeroed, joshTcpChecksumIpv4, storeBe16_storeBe16, if_neg (hshort _)]
    exact transportChecksumIpv4_storeBe16 sourceIp destinationIp ipTcp rfl (by omega) hlength
  · intro capacity sourcePort destinationPort payload segment hbuild
    have hfits : ¬ (65527 < payload.length ∨ capacity < 8 + payload.length) := by
      intro hbad
      rw [joshUdpBuildIpv4, if_pos hbad] at hbuild
      cases hbuild
    push Not at hfits
    obtain ⟨stored, heq, hsum, hne⟩ := joshUdpBuildIpv4_eq sourcePort destinationPort payload
      sourceIp destinationIp hfits.1 hfits.2
    obtain rfl := Option.some.inj (heq.symm.trans hbuild)
    rw [udpSegment, readBe16_of_bytes rfl rfl]
    exact ⟨hne, hsum⟩
  · refine fun protocol segment => ⟨transportChecksumIpv4_eq .., ?_⟩
    intro hlength before piece after hpieces
    have hall : ∀ q ∈ before ++ piece :: after, q.length ≤ 65535 := by
      rw [← hpieces]
      exact fun _ hq => length_of_mem_transportPieces hlength hq
    have hsum := (foldl_checksumAdd_represents
      (fun q hq => hall q (List.mem_append_left _ hq)) Represents.zero).lt
    have hpiece := hall piece (by simp)
    have hwords := wordSum_le piece
    refine addsExactly_of_lt ?_
    omega

/-- A segment of nineteen bytes and an empty datagram. -/
theorem transport_checksums_verify_short :
    joshTcpChecksumIpv4 ![10, 0, 2, 15] ![10, 0, 2, 3]
        (storeBe16 (storeBe16 (List.replicate 19 7) 16 0) 16 (joshTcpChecksumIpv4
          ![10, 0, 2, 15] ![10, 0, 2, 3] (storeBe16 (List.replicate 19 7) 16 0))) = 0 ∧
      ∀ segment, joshUdpBuildIpv4 8 ![10, 0, 2, 15] ![10, 0, 2, 3] 68 67 [] = some segment →
        readBe16 segment 6 ≠ 0 :=
  ⟨(transport_checksums_verify _ _).1 (List.replicate 19 7) (by decide) (by decide),
    fun segment h => ((transport_checksums_verify _ _).2.1 _ _ _ _ segment h).1⟩

/-! ### Echo replies -/

/-- A string with its checksum stored at an even offset verifies. -/
lemma joshNetChecksum_storeBe16 (heven : offset % 2 = 0) (hfield : offset + 1 < p.length)
    (hlength : p.length ≤ 65535) :
    joshNetChecksum (storeBe16 p offset (joshNetChecksum (storeBe16 p offset 0))) = 0 := by
  have hshort (value : UInt16) : (storeBe16 p offset value).length ≤ 65535 := by
    rwa [length_storeBe16]
  have hzero := joshNetChecksum_complements (hshort 0)
  generalize joshNetChecksum (storeBe16 p offset 0) = checksum at hzero
  have hstored := joshNetChecksum_complements (hshort checksum)
  rw [wordSum_storeBe16 heven hfield] at hstored
  exact UInt16.toNat_inj.mp (hzero.verify rfl hzero.add_pos hstored)

/-- What is accepted as an echo request. -/
structure IsEchoRequest (request : List UInt8) : Prop where
  length : 8 ≤ request.length
  type : request.getD 0 0 = 8
  code : request.getD 1 0 = 0
  checksum : joshNetChecksum request = 0

/-- The reply in the buffer: the request with its type and its checksum replaced. -/
lemma joshIcmpEchoReply_eq {request : List UInt8} {out : EchoOutput} (h : IsEchoRequest request)
    (hcapacity : request.length ≤ out.reply.length) :
    joshIcmpEchoReply request out =
      (.ok (),
        { reply := storeBe16 (request.set 0 0) 2
            (joshNetChecksum (storeBe16 (request.set 0 0) 2 0)) ++
              out.reply.drop request.length
          replyLength := request.length }) := by
  have hlength := h.length
  have hcode : ¬ (request.getD 0 0 ≠ 8 ∨ request.getD 1 0 ≠ 0) := by
    rw [h.type, h.code]
    decide
  rw [joshIcmpEchoReply, if_neg (by omega), if_neg (by omega), if_neg hcode,
    if_neg (by rw [h.checksum]; decide)]
  -- Zeroing bytes 2 and 3 is storing a zero word there, and the checksum replaces it.
  have happend (q : List UInt8) (value : UInt16) (hq : 4 ≤ q.length) (rest : List UInt8) :
      storeBe16 (q ++ rest) 2 value = storeBe16 q 2 value ++ rest := by
    simp only [storeBe16]
    rw [set_append_left _ _ (by omega),
      set_append_left _ _ (by rw [length_set]; omega)]
  have hset : (request ++ out.reply.drop request.length).set 0 0 =
      request.set 0 0 ++ out.reply.drop request.length :=
    set_append_left _ _ (by omega)
  have hzeroed : (((request ++ out.reply.drop request.length).set 0 0).set 2 0).set 3 0 =
      storeBe16 (request.set 0 0) 2 0 ++ out.reply.drop request.length := by
    rw [← happend _ _ (by rw [length_set]; omega), hset]
    rfl
  simp only [hzeroed]
  rw [take_left' (by simp), happend _ _ (by simp; omega), storeBe16_storeBe16]

/-- Anything else is refused, and nothing is written. -/
lemma joshIcmpEchoReply_refused {request : List UInt8} {out : EchoOutput}
    (h : ¬ (IsEchoRequest request ∧ request.length ≤ out.reply.length)) :
    ∃ status, joshIcmpEchoReply request out = (.error status, out) := by
  rw [joshIcmpEchoReply]
  split_ifs with hshort hcapacity hcode hsum
  · exact ⟨_, rfl⟩
  · exact ⟨_, rfl⟩
  · exact ⟨_, rfl⟩
  · exact ⟨_, rfl⟩
  · push Not at hcode hsum
    exact absurd ⟨⟨not_lt.mp hshort, hcode.1, hcode.2, hsum⟩, not_lt.mp hcapacity⟩ h

/-- **Echo replies.**  A request is answered with the same bytes from the identifier on, as an
echo reply whose checksum verifies; what is not accepted leaves the buffer and its length
alone. -/
theorem icmp_echo_reply (request : List UInt8) (out : EchoOutput) :
    let r := joshIcmpEchoReply request out
    let reply := r.2.reply.take r.2.replyLength
    (r.1 = .ok () ↔ IsEchoRequest request ∧ request.length ≤ out.reply.length) ∧
      (r.1 = .ok () → request.length ≤ 65535 →
        r.2.replyLength = request.length ∧ reply.length = request.length ∧
        reply.getD 0 0 = 0 ∧ reply.getD 1 0 = 0 ∧ reply.drop 4 = request.drop 4 ∧
        joshNetChecksum reply = 0) ∧
      (r.1 ≠ .ok () → r.2 = out) := by
  intro r reply
  by_cases haccepted : IsEchoRequest request ∧ request.length ≤ out.reply.length
  · obtain ⟨hrequest, hcapacity⟩ := haccepted
    have hlength := hrequest.length
    have hr : r = _ := joshIcmpEchoReply_eq hrequest hcapacity
    set checksum := joshNetChecksum (storeBe16 (request.set 0 0) 2 0) with hchecksum
    have hreply : reply = storeBe16 (request.set 0 0) 2 checksum := by
      simp only [reply, hr]
      exact List.take_left' (by simp)
    have hok : r.1 = .ok () := by rw [hr]
    refine ⟨iff_of_true hok ⟨hrequest, hcapacity⟩, fun _ hshort => ?_, fun hne => absurd hok hne⟩
    rw [hreply]
    refine ⟨by rw [hr], by simp, ?_, ?_, ?_, ?_⟩
    · have : 0 < request.length := by omega
      simp [storeBe16, this]
    · simpa [storeBe16] using hrequest.code
    · simp [storeBe16, List.drop_set]
    · exact joshNetChecksum_storeBe16 rfl (by rw [List.length_set]; omega) (by simpa using hshort)
  · obtain ⟨status, hr⟩ := joshIcmpEchoReply_refused haccepted
    have hrefused : r = (.error status, out) := hr
    refine ⟨iff_of_false ?_ haccepted, fun hok => ?_, fun _ => by rw [hrefused]⟩
    · rw [hrefused]
      intro hok
      cases hok
    · rw [hrefused] at hok
      cases hok

/-- A request with no payload, every field zero: the sum of the reply is the other zero. -/
theorem icmp_echo_reply_bare :
    let r := joshIcmpEchoReply [8, 0, 0xf7, 0xff, 0, 0, 0, 0] ⟨List.replicate 10 0xaa, 0⟩
    joshNetChecksum (r.2.reply.take r.2.replyLength) = 0 := by
  have h := icmp_echo_reply [8, 0, 0xf7, 0xff, 0, 0, 0, 0] ⟨List.replicate 10 0xaa, 0⟩
  exact (h.2.1 (h.1.mpr ⟨⟨by decide, rfl, rfl, by decide⟩, by decide⟩) (by decide)).2.2.2.2.2

/-! ### Corrupt headers -/

/-- What holds of an accepted packet. -/
structure AcceptedBy (p : List UInt8) (headerLength : ℕ) : Prop where
  headerLength_eq : headerLength = (p.getD 0 0).toNat % 16 * 4
  twenty_le : 20 ≤ headerLength
  header_le : headerLength ≤ p.length
  header_le_total : headerLength ≤ (readBe16 p 2).toNat
  total_le : (readBe16 p 2).toNat ≤ p.length
  checksum : joshNetChecksum (p.take headerLength) = 0

lemma joshIpv4Parse_ok {out : Ipv4Packet} (h : joshIpv4Parse p = .ok out) :
    AcceptedBy p out.headerLength ∧
      out.payload = (p.drop out.headerLength).take ((readBe16 p 2).toNat - out.headerLength) := by
  simp only [joshIpv4Parse] at h
  split_ifs at h with hshort hversion hheader htotal hsum
  obtain rfl := Except.ok.inj h
  push Not at hversion htotal hsum
  exact ⟨⟨rfl, Nat.mul_le_mul_right 4 hversion.2, not_lt.mp hheader, htotal.1, htotal.2, hsum⟩, rfl⟩

/-- The words of an accepted header sum to a multiple of `65535`. -/
lemma AcceptedBy.modEq_zero {headerLength : ℕ} (h : AcceptedBy p headerLength) :
    wordSum (p.take headerLength) ≡ 0 [MOD 65535] := by
  have hlength : (p.take headerLength).length ≤ 65535 := by
    have := h.headerLength_eq
    rw [length_take]
    omega
  have hsum := joshNetChecksum_complements hlength
  rw [h.checksum] at hsum
  exact hsum.modEq_zero

/-- **A flipped bit is caught.**  Whichever bit of an accepted header behind its first byte is
inverted, the packet is refused; and the payload of an accepted packet lies within it, its
length being what the two length fields leave. -/
theorem ipv4_bit_flip_caught (p : List UInt8) (out : Ipv4Packet)
    (h : joshIpv4Parse p = .ok out) :
    (∀ i (k : Fin 8), 1 ≤ i → i < out.headerLength →
      ∃ status, joshIpv4Parse (flipBit p i k) = .error status) ∧
      out.headerLength + out.payload.length ≤ p.length ∧
      out.headerLength ≤ (readBe16 p 2).toNat ∧
      out.payload.length = (readBe16 p 2).toNat - out.headerLength := by
  obtain ⟨haccepted, hpayload⟩ := joshIpv4Parse_ok h
  have hheader := haccepted.header_le
  have htotal := haccepted.total_le
  have hlength : out.payload.length = (readBe16 p 2).toNat - out.headerLength := by
    rw [hpayload, List.length_take, List.length_drop]
    omega
  have hle := haccepted.header_le_total
  refine ⟨fun i k hi hlt => ?_, by omega, hle, hlength⟩
  cases hflip : joshIpv4Parse (flipBit p i k) with
  | error status => exact ⟨status, rfl⟩
  | ok out' =>
    obtain ⟨hflipped, -⟩ := joshIpv4Parse_ok hflip
    -- The first byte, and with it the length of the header, is as it was.
    have hsame : out'.headerLength = out.headerLength := by
      have hfirst : (flipBit p i k).getD 0 0 = p.getD 0 0 := by
        simp [flipBit, List.getD_eq_getElem?_getD, List.getElem?_set_ne (show i ≠ 0 by omega)]
      rw [hflipped.headerLength_eq, haccepted.headerLength_eq, hfirst]
    have htake : (flipBit p i k).take out.headerLength =
        flipBit (p.take out.headerLength) i k := by
      simp [flipBit, List.take_set, hlt]
    have hzero := hflipped.modEq_zero
    rw [hsame, htake] at hzero
    refine absurd (hzero.trans haccepted.modEq_zero.symm)
      (wordSum_flipBit_not_modEq _ ?_ k)
    rw [List.length_take]
    omega

/-- The low bit of the time to live of a bare header. -/
theorem ipv4_bit_flip_caught_ttl :
    ∃ status, joshIpv4Parse
      (flipBit (ipv4Header 17 64 0 ![10, 0, 2, 15] ![10, 0, 2, 3] 0 0x22c8 ++ [] ++ []) 8 0) =
        .error status :=
  (ipv4_bit_flip_caught _ _ (@joshIpv4Parse_header 17 64 0 ![10, 0, 2, 15] ![10, 0, 2, 3] []
    (by decide) 0x22c8 [] (by decide))).1 8 0 (by decide) (by decide)

end JoshOS.Net
