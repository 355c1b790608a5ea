import JoshOS.Lib.OnesComplement

/-!
The wire formats of the network stack (`net_proto.c`).

A buffer handed to a parser is the list of its bytes, its length being that of the list;
a builder answers the bytes it wrote from the start of its buffer, or nothing where the
source returns `0`.  A payload pointer with its length is the list of the bytes it spans.
The null-pointer checks at the head of each function are left out: every argument is there.

The reads of the Ethernet, IPv4 and UDP parsers are at fixed offsets below the length they
checked.  Those of the DHCP and DNS parsers are at computed offsets: there a read at or beyond
the length, and a `size_t` subtraction that would wrap, give no result at all (`byteAt`,
`wordAt`, `longAt`, `copyAt`, `minus`), so that a result shows the accesses to be in order.
-/

open OnesComplement

namespace JoshOS.Net

/-- The error statuses of the protocol functions, `JOSH_NET_ERR_*`. -/
inductive JoshNetStatus
  | argument
  | truncated
  | malformed
  | checksum
  | unsupported
  | buffer
  deriving DecidableEq, Repr

/-- A hardware address. -/
abbrev MacAddress := Fin 6 → UInt8

/-- An IPv4 address. -/
abbrev Ipv4Address := Fin 4 → UInt8

/-- `JOSH_NET_IP_TCP`. -/
def ipTcp : UInt8 := 6

/-- `JOSH_NET_IP_UDP`. -/
def ipUdp : UInt8 := 17

/-! ### Bytes and words -/

/-- The 16-bit big-endian word at `offset` of `p`. -/
def readBe16 (p : List UInt8) (offset : ℕ) : UInt16 :=
  UInt16.ofNat (256 * (p.getD offset 0).toNat + (p.getD (offset + 1) 0).toNat)

/-- The 32-bit big-endian word at `offset` of `p`. -/
def readBe32 (p : List UInt8) (offset : ℕ) : UInt32 :=
  UInt32.ofNat (2 ^ 24 * (p.getD offset 0).toNat + 2 ^ 16 * (p.getD (offset + 1) 0).toNat +
    2 ^ 8 * (p.getD (offset + 2) 0).toNat + (p.getD (offset + 3) 0).toNat)

/-- The two bytes of a word, the high one first. -/
def writeBe16 (value : UInt16) : List UInt8 :=
  [UInt8.ofNat (value.toNat / 256), UInt8.ofNat value.toNat]

/-- The bytes `p` with a word stored at `offset`. -/
def storeBe16 (p : List UInt8) (offset : ℕ) (value : UInt16) : List UInt8 :=
  (p.set offset (UInt8.ofNat (value.toNat / 256))).set (offset + 1) (UInt8.ofNat value.toNat)

/-- The `n` bytes copied from `offset` of `p`. -/
def copyBytes (n : ℕ) (p : List UInt8) (offset : ℕ) : Fin n → UInt8 :=
  fun i => p.getD (offset + i) 0

/-! ### Checksums -/

/-- The rounds of the loop that folds the carries of a 32-bit sum; two are enough. -/
def foldRounds : ℕ := 2

/-- The words of `data` added to a 32-bit sum, which wraps. -/
def addWords : ℕ → List UInt8 → ℕ
  | sum, [] => sum
  | sum, [a] => (sum + 256 * a.toNat) % 2 ^ 32
  | sum, a :: b :: rest => addWords ((sum + (256 * a.toNat + b.toNat)) % 2 ^ 32) rest

def checksumAdd (sum : ℕ) (data : List UInt8) : ℕ := foldCarries foldRounds (addWords sum data)

/-- The folded sum complemented: the low 16 bits of `~sum`. -/
def checksumFinish (sum : ℕ) : UInt16 :=
  UInt16.ofNat (2 ^ 32 - 1 - foldCarries foldRounds sum)

def joshNetChecksum (data : List UInt8) : UInt16 := checksumFinish (checksumAdd 0 data)

/-- The checksum of a segment under its IPv4 pseudo-header. -/
def transportChecksumIpv4 (sourceIp destinationIp : Ipv4Address) (protocol : UInt8)
    (segment : List UInt8) : UInt16 :=
  let sum := checksumAdd 0 (List.ofFn sourceIp)
  let sum := checksumAdd sum (List.ofFn destinationIp)
  let pseudo := [0, protocol, UInt8.ofNat (segment.length / 256), UInt8.ofNat segment.length]
  let sum := checksumAdd sum pseudo
  let sum := checksumAdd sum segment
  checksumFinish sum

/-! ### Ethernet -/

/-- `josh_eth_frame_t`. -/
structure EthFrame where
  destination : MacAddress
  source : MacAddress
  ethertype : UInt16
  payload : List UInt8
  deriving DecidableEq

def joshEthParse (frame : List UInt8) : Except JoshNetStatus EthFrame :=
  if frame.length < 14 then .error .truncated
  else
    .ok
      { destination := copyBytes 6 frame 0
        source := copyBytes 6 frame 6
        ethertype := readBe16 frame 12
        payload := frame.drop 14 }

def joshEthBuild (capacity : ℕ) (destination source : MacAddress) (ethertype : UInt16)
    (payload : List UInt8) : Option (List UInt8) :=
  if capacity < payload.length ∨ capacity - payload.length < 14 then none
  else some (List.ofFn destination ++ List.ofFn source ++ writeBe16 ethertype ++ payload)

/-! ### IPv4 -/

/-- `josh_ipv4_packet_t`. -/
structure Ipv4Packet where
  dscpEcn : UInt8
  identification : UInt16
  flagsFragment : UInt16
  ttl : UInt8
  protocol : UInt8
  source : Ipv4Address
  destination : Ipv4Address
  payload : List UInt8
  headerLength : ℕ
  deriving DecidableEq

def joshIpv4Parse (p : List UInt8) : Except JoshNetStatus Ipv4Packet :=
  if p.length < 20 then .error .truncated
  else
    let version := (p.getD 0 0).toNat / 16
    let ihl := (p.getD 0 0).toNat % 16
    if version ≠ 4 ∨ ihl < 5 then .error .malformed
    else
      let headerLength := ihl * 4
      if p.length < headerLength then .error .truncated
      else
        let totalLength := (readBe16 p 2).toNat
        if totalLength < headerLength ∨ p.length < totalLength then .error .truncated
        else if joshNetChecksum (p.take headerLength) ≠ 0 then .error .checksum
        else
          .ok
            { dscpEcn := p.getD 1 0
              identification := readBe16 p 4
              flagsFragment := readBe16 p 6
              ttl := p.getD 8 0
              protocol := p.getD 9 0
              source := copyBytes 4 p 12
              destination := copyBytes 4 p 16
              payload := (p.drop headerLength).take (totalLength - headerLength)
              headerLength := headerLength }

/-- The 20 bytes of an IPv4 header as `josh_ipv4_build` lays them out, with `checksum` in
bytes 10 and 11. -/
def ipv4Header (protocol ttl : UInt8) (identification : UInt16)
    (source destination : Ipv4Address) (payloadLength : ℕ) (checksum : UInt16) : List UInt8 :=
  [0x45, 0] ++ writeBe16 (UInt16.ofNat (20 + payloadLength)) ++ writeBe16 identification ++
    writeBe16 0x4000 ++ [ttl, protocol] ++ writeBe16 checksum ++
    List.ofFn source ++ List.ofFn destination

def joshIpv4Build (capacity : ℕ) (protocol ttl : UInt8) (identification : UInt16)
    (source destination : Ipv4Address) (payload : List UInt8) : Option (List UInt8) :=
  if 65515 < payload.length ∨ capacity < 20 + payload.length then none
  else
    let header := ipv4Header protocol ttl identification source destination payload.length
    -- The checksum is taken over the header with a zero in its place.
    some (header (joshNetChecksum (header 0)) ++ payload)

/-! ### ICMP -/

/-- What `josh_icmp_echo_reply` may write: the bytes of the reply buffer, `capacity` of them,
and `*reply_length`. -/
structure EchoOutput where
  reply : List UInt8
  replyLength : ℕ
  deriving DecidableEq

def joshIcmpEchoReply (request : List UInt8) (out : EchoOutput) :
    Except JoshNetStatus Unit × EchoOutput :=
  if request.length < 8 then (.error .truncated, out)
  else if out.reply.length < request.length then (.error .buffer, out)
  else if request.getD 0 0 ≠ 8 ∨ request.getD 1 0 ≠ 0 then (.error .unsupported, out)
  else if joshNetChecksum request ≠ 0 then (.error .checksum, out)
  else
    let dst := request ++ out.reply.drop request.length
    let dst := ((dst.set 0 0).set 2 0).set 3 0
    let dst := storeBe16 dst 2 (joshNetChecksum (dst.take request.length))
    (.ok (), { reply := dst, replyLength := request.length })

/-! ### UDP and TCP -/

/-- `josh_udp_packet_t`. -/
structure UdpPacket where
  sourcePort : UInt16
  destinationPort : UInt16
  checksum : UInt16
  payload : List UInt8
  deriving DecidableEq

def joshUdpParse (p : List UInt8) : Except JoshNetStatus UdpPacket :=
  if p.length < 8 then .error .truncated
  else
    let encodedLength := (readBe16 p 4).toNat
    if encodedLength < 8 ∨ p.length < encodedLength then .error .malformed
    else
      .ok
        { sourcePort := readBe16 p 0
          destinationPort := readBe16 p 2
          checksum := readBe16 p 6
          payload := (p.drop 8).take (encodedLength - 8) }

def joshUdpChecksumIpv4 (sourceIp destinationIp : Ipv4Address) (segment : List UInt8) : UInt16 :=
  if 65535 < segment.length then 0
  else transportChecksumIpv4 sourceIp destinationIp ipUdp segment

/-- A UDP segment as `josh_udp_build_ipv4` lays it out, with `checksum` in bytes 6 and 7. -/
def udpSegment (sourcePort destinationPort : UInt16) (payload : List UInt8)
    (checksum : UInt16) : List UInt8 :=
  writeBe16 sourcePort ++ writeBe16 destinationPort ++
    writeBe16 (UInt16.ofNat (8 + payload.length)) ++ writeBe16 checksum ++ payload

def joshUdpBuildIpv4 (capacity : ℕ) (sourceIp destinationIp : Ipv4Address)
    (sourcePort destinationPort : UInt16) (payload : List UInt8) : Option (List UInt8) :=
  if 65527 < payload.length ∨ capacity < 8 + payload.length then none
  else
    let segment := udpSegment sourcePort destinationPort payload
    let checksum := joshUdpChecksumIpv4 sourceIp destinationIp (segment 0)
    -- A zero field would say that there is no checksum.
    let checksum := if checksum = 0 then 0xffff else checksum
    some (segment checksum)

def joshTcpChecksumIpv4 (sourceIp destinationIp : Ipv4Address) (segment : List UInt8) : UInt16 :=
  if 65535 < segment.length then 0
  else transportChecksumIpv4 sourceIp destinationIp ipTcp segment

/-! ### Reads below the length -/

/-- A read of `p`, which has to stay below its length. -/
def byteAt (p : List UInt8) (offset : ℕ) : Option UInt8 := p[offset]?

/-- A `size_t` difference, which must not wrap. -/
def minus (a b : ℕ) : Option ℕ := if b ≤ a then some (a - b) else none

/-- The word at `offset` of `p`, both bytes of it below the length. -/
def wordAt (p : List UInt8) (offset : ℕ) : Option UInt16 := do
  let _ ← byteAt p offset
  let _ ← byteAt p (offset + 1)
  return readBe16 p offset

/-- The 32-bit word at `offset` of `p`, all of it below the length. -/
def longAt (p : List UInt8) (offset : ℕ) : Option UInt32 :=
  if offset + 4 ≤ p.length then some (readBe32 p offset) else none

/-- The `n` bytes copied from `offset` of `p`, all of them below the length. -/
def copyAt (n : ℕ) (p : List UInt8) (offset : ℕ) : Option (Fin n → UInt8) :=
  if offset + n ≤ p.length then some (copyBytes n p offset) else none

/-! ### DHCP -/

/-- `josh_dhcp_offer_t`; as `zero_bytes` leaves it unless said otherwise. -/
@[ext]
structure DhcpOffer where
  messageType : UInt8 := 0
  offeredIp : Ipv4Address := fun _ => 0
  serverId : Ipv4Address := fun _ => 0
  subnetMask : Ipv4Address := fun _ => 0
  router : Ipv4Address := fun _ => 0
  dns : Ipv4Address := fun _ => 0
  leaseSeconds : UInt32 := 0
  deriving DecidableEq

/-- What an option with its value at `offset` of `p` does to the offer. -/
def dhcpOption (p : List UInt8) (code optionLength : UInt8) (offset : ℕ) (out : DhcpOffer) :
    Option DhcpOffer :=
  if code = 53 ∧ optionLength = 1 then
    return { out with messageType := ← byteAt p offset }
  else if code = 54 ∧ optionLength = 4 then
    return { out with serverId := ← copyAt 4 p offset }
  else if code = 1 ∧ optionLength = 4 then
    return { out with subnetMask := ← copyAt 4 p offset }
  else if code = 3 ∧ 4 ≤ optionLength then
    return { out with router := ← copyAt 4 p offset }
  else if code = 6 ∧ 4 ≤ optionLength then
    return { out with dns := ← copyAt 4 p offset }
  else if code = 51 ∧ optionLength = 4 then
    return { out with leaseSeconds := ← longAt p offset }
  else return out

/-- The loop of `josh_dhcp_parse_reply` over the options from `offset` on. -/
def dhcpOptions (p : List UInt8) :
    ℕ → ℕ → DhcpOffer → Option (Except JoshNetStatus Unit × DhcpOffer)
  | 0, _, _ => none
  | fuel + 1, offset, out => do
      if p.length ≤ offset then return (.ok (), out)
      let code ← byteAt p offset
      let offset := offset + 1
      if code = 0 then
        dhcpOptions p fuel offset out
      else
        if code = 255 then return (.ok (), out)
        if p.length ≤ offset then return (.error .truncated, out)
        let optionLength ← byteAt p offset
        let offset := offset + 1
        let left ← minus p.length offset
        if left < optionLength.toNat then return (.error .truncated, out)
        let out ← dhcpOption p code optionLength offset out
        dhcpOptions p fuel (offset + optionLength.toNat) out

/-- The status and the offer left in `*out`.  Each round of the loop moves on. -/
def joshDhcpParseReply (p : List UInt8) (expectedXid : UInt32) (out : DhcpOffer) :
    Option (Except JoshNetStatus Unit × DhcpOffer) := do
  if p.length < 240 then return (.error .truncated, out)
  let op ← byteAt p 0
  let htype ← byteAt p 1
  let hlen ← byteAt p 2
  if op ≠ 2 ∨ htype ≠ 1 ∨ hlen ≠ 6 then return (.error .unsupported, out)
  let xid ← longAt p 4
  if xid ≠ expectedXid then return (.error .malformed, out)
  let cookie ← longAt p 236
  if cookie ≠ 0x63825363 then return (.error .malformed, out)
  let offeredIp ← copyAt 4 p 16
  let (status, out) ← dhcpOptions p (p.length + 1) 240 { offeredIp := offeredIp }
  match status with
  | .error status => return (.error status, out)
  | .ok () =>
    if out.messageType ≠ 2 ∧ out.messageType ≠ 5 then return (.error .malformed, out)
    return (.ok (), out)

/-! ### DNS -/

/-- The `.` between the labels of a host name. -/
def dot : UInt8 := 46

/-- The labels of the host name appended to what is written, `fuel` labels at most; none when
a label is empty or longer than 63 bytes, or when it and the five bytes that end the question
do not fit.  A label reads on to the next dot or to the end of the name. -/
def buildLabels (capacity : ℕ) : ℕ → List UInt8 → List UInt8 → Option (List UInt8)
  | 0, _, _ => none
  | fuel + 1, out, hostname =>
    let label := hostname.takeWhile (· ≠ dot)
    if label.length = 0 ∨ 63 < label.length ∨ capacity < out.length + 1 + label.length + 5 then
      none
    else
      let out := out ++ UInt8.ofNat label.length :: label
      match hostname.dropWhile (· ≠ dot) with
      | [] => some out
      | _ :: rest => buildLabels capacity fuel out rest

/-- The header of a query: the transaction id, the recursion flag and one question. -/
def queryHeader (transactionId : UInt16) : List UInt8 :=
  writeBe16 transactionId ++ writeBe16 0x0100 ++ writeBe16 1 ++ [0, 0, 0, 0, 0, 0]

/-- The host name is the bytes of a C string, without its final zero. -/
def joshDnsBuildAQuery (capacity : ℕ) (transactionId : UInt16) (hostname : List UInt8) :
    Option (List UInt8) :=
  if capacity < 17 then none
  else
    match buildLabels capacity (hostname.length + 1) (queryHeader transactionId) hostname with
    | none => none
    | some out => some (out ++ [0] ++ writeBe16 1 ++ writeBe16 1)

/-- The loop of `dns_skip_name` from `pos` with `labels` labels behind it. -/
def skipName (p : List UInt8) : ℕ → ℕ → ℕ → Option (Except JoshNetStatus ℕ)
  | 0, _, _ => none
  | fuel + 1, pos, labels => do
      if p.length ≤ pos then return .error .truncated
      let size ← byteAt p pos
      let pos := pos + 1
      if size = 0 then return .ok pos
      if size &&& 0xc0 = 0xc0 then
        if p.length ≤ pos then return .error .truncated
        return .ok (pos + 1)
      let left ← minus p.length pos
      if size &&& 0xc0 ≠ 0 ∨ 63 < size ∨ left < size.toNat then return .error .malformed
      if 127 < labels + 1 then return .error .malformed
      skipName p fuel (pos + size.toNat) (labels + 1)

/-- The offset after the name at `offset`.  Each round of the loop moves on. -/
def dnsSkipName (p : List UInt8) (offset : ℕ) : Option (Except JoshNetStatus ℕ) :=
  skipName p (p.length + 1) offset 0

/-- The loop over the questions of a response. -/
def skipQuestions (p : List UInt8) : ℕ → ℕ → Option (Except JoshNetStatus ℕ)
  | 0, offset => some (.ok offset)
  | questions + 1, offset => do
      match ← dnsSkipName p offset with
      | .error status => return .error status
      | .ok offset =>
        let left ← minus p.length offset
        if left < 4 then return .error .truncated
        skipQuestions p questions (offset + 4)

/-- The loop over the answers of a response: the data of the first A record of class IN is
copied to the buffer for the address. -/
def findAddress (p : List UInt8) (address : Ipv4Address) :
    ℕ → ℕ → Option (Except JoshNetStatus Unit × Ipv4Address)
  | 0, _ => some (.error .unsupported, address)
  | answers + 1, offset => do
      match ← dnsSkipName p offset with
      | .error status => return (.error status, address)
      | .ok offset =>
        let left ← minus p.length offset
        if left < 10 then return (.error .truncated, address)
        let type ← wordAt p offset
        let klass ← wordAt p (offset + 2)
        let rdlength ← wordAt p (offset + 8)
        let offset := offset + 10
        let left ← minus p.length offset
        if left < rdlength.toNat then return (.error .truncated, address)
        if type = 1 ∧ klass = 1 ∧ rdlength = 4 then
          let address ← copyAt 4 p offset
          return (.ok (), address)
        findAddress p address answers (offset + rdlength.toNat)

/-- `josh_dns_parse_a_response`, with the buffer for the address as the call leaves it. -/
def joshDnsParseAResponse (p : List UInt8) (transactionId : UInt16) (address : Ipv4Address) :
    Option (Except JoshNetStatus Unit × Ipv4Address) := do
  if p.length < 12 then return (.error .truncated, address)
  let id ← wordAt p 0
  if id ≠ transactionId then return (.error .malformed, address)
  let flags ← wordAt p 2
  if flags &&& 0x8000 = 0 ∨ flags &&& 0x000f ≠ 0 then return (.error .malformed, address)
  let questions ← wordAt p 4
  let answers ← wordAt p 6
  match ← skipQuestions p questions.toNat 12 with
  | .error status => return (.error status, address)
  | .ok offset => findAddress p address answers.toNat offset

end JoshOS.Net
