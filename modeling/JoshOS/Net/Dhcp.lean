import JoshOS.Net.Response

/-!
DHCP replies and what `josh_dhcp_parse_reply` makes of them.

* `DhcpOption`, `DhcpItem`, `DhcpEnd`: options of any code and length with padding anywhere
  between them, and how a list of them may end.
* `dhcp_reply_parsed`: the parser on any bytes, and on any well-formed reply.
-/

namespace JoshOS.Net

open List

variable {p rest : List UInt8} {pos fuel : ℕ} {out : DhcpOffer}

/-! ### Any bytes -/

lemma longAt_of_le (h : pos + 4 ≤ p.length) : longAt p pos = some (readBe32 p pos) := if_pos h

lemma copyAt_of_le {n : ℕ} (h : pos + n ≤ p.length) : copyAt n p pos = some (copyBytes n p pos) :=
  if_pos h

/-- An option whose value lies below the length is taken in. -/
lemma dhcpOption_total (code : UInt8) {optionLength : UInt8}
    (h : pos + optionLength.toNat ≤ p.length) (out : DhcpOffer) :
    ∃ out', dhcpOption p code optionLength pos out = some out' := by
  have hfour : 4 ≤ optionLength → pos + 4 ≤ p.length := fun hle => by
    have : 4 ≤ optionLength.toNat := UInt8.le_iff_toNat_le.mp hle
    omega
  have heq : optionLength = 4 → pos + 4 ≤ p.length := fun h4 => hfour (h4 ▸ UInt8.le_refl _)
  rw [dhcpOption]
  split_ifs with htype hserver hmask hrouter hdns hlease
  · have hone : optionLength.toNat = 1 := congrArg UInt8.toNat htype.2
    obtain ⟨b, hb⟩ := byteAt_of_lt (show pos < p.length by omega)
    exact ⟨_, by rw [hb]; rfl⟩
  · exact ⟨_, by rw [copyAt_of_le (heq hserver.2)]; rfl⟩
  · exact ⟨_, by rw [copyAt_of_le (heq hmask.2)]; rfl⟩
  · exact ⟨_, by rw [copyAt_of_le (hfour hrouter.2)]; rfl⟩
  · exact ⟨_, by rw [copyAt_of_le (hfour hdns.2)]; rfl⟩
  · exact ⟨_, by rw [longAt_of_le (heq hlease.2)]; rfl⟩
  · exact ⟨_, rfl⟩

/-- **The loop over the options ends.**  Each round moves on, and no option reaches beyond
the length. -/
lemma dhcpOptions_total (hfuel : p.length < pos + fuel) (hpos : pos ≤ p.length)
    (out : DhcpOffer) : ∃ r, dhcpOptions p fuel pos out = some r := by
  induction fuel generalizing pos out with
  | zero => omega
  | succ fuel ih =>
    by_cases hend : p.length ≤ pos
    · rw [dhcpOptions, if_pos hend]
      exact ⟨_, rfl⟩
    obtain ⟨code, hcode⟩ := byteAt_of_lt (Nat.not_le.mp hend)
    simp only [dhcpOptions, hend, hcode, if_false, Option.bind_eq_bind, Option.bind_some]
    by_cases hpad : code = 0
    · rw [if_pos hpad]
      exact ih (by omega) (by omega) out
    rw [if_neg hpad]
    by_cases hlast : code = 255
    · rw [if_pos hlast]
      exact ⟨_, rfl⟩
    rw [if_neg hlast]
    by_cases hcut : p.length ≤ pos + 1
    · rw [if_pos hcut]
      exact ⟨_, rfl⟩
    obtain ⟨optionLength, hlength⟩ := byteAt_of_lt (Nat.not_le.mp hcut)
    have hminus := minus_of_le (a := p.length) (b := pos + 1 + 1) (by omega)
    simp only [hcut, hlength, hminus, if_false, Option.bind_some]
    by_cases hlong : p.length - (pos + 1 + 1) < optionLength.toNat
    · rw [if_pos hlong]
      exact ⟨_, rfl⟩
    obtain ⟨out', hout⟩ := dhcpOption_total code
      (show pos + 1 + 1 + optionLength.toNat ≤ p.length by omega) out
    rw [if_neg hlong, hout]
    exact ih (by omega) (by omega) out'

/-- The end of `josh_dhcp_parse_reply`: a list of options read to its end has to name one of
two message types. -/
def dhcpVerdict : Except JoshNetStatus Unit × DhcpOffer → Except JoshNetStatus Unit × DhcpOffer
  | (.error status, out) => (.error status, out)
  | (.ok (), out) =>
    (if out.messageType = 2 ∨ out.messageType = 5 then .ok () else .error .malformed, out)

/-- The parser on a packet long enough for its fixed part. -/
lemma joshDhcpParseReply_eq (hlength : 240 ≤ p.length) (expectedXid : UInt32)
    (out : DhcpOffer) :
    joshDhcpParseReply p expectedXid out =
      if p.getD 0 0 ≠ 2 ∨ p.getD 1 0 ≠ 1 ∨ p.getD 2 0 ≠ 6 then some (.error .unsupported, out)
      else if readBe32 p 4 ≠ expectedXid then some (.error .malformed, out)
      else if readBe32 p 236 ≠ 0x63825363 then some (.error .malformed, out)
      else (dhcpOptions p (p.length + 1) 240 { offeredIp := copyBytes 4 p 16 }).map
        dhcpVerdict := by
  have hbyte (i : ℕ) (hi : i < 240) : byteAt p i = some (p.getD i 0) := by
    rw [byteAt, getElem?_eq_getElem (by omega), getD_eq_getElem _ _ (by omega)]
  obtain ⟨⟨status, offer⟩, hoptions⟩ := dhcpOptions_total (show p.length < 240 + (p.length + 1)
    by omega) hlength { offeredIp := copyBytes 4 p 16 }
  rw [joshDhcpParseReply, if_neg (by omega), hbyte 0 (by omega), hbyte 1 (by omega),
    hbyte 2 (by omega), longAt_of_le (show 4 + 4 ≤ p.length by omega),
    longAt_of_le (show 236 + 4 ≤ p.length by omega),
    copyAt_of_le (show 16 + 4 ≤ p.length by omega)]
  simp only [Option.bind_eq_bind, Option.bind_some, hoptions, Option.map_some]
  refine if_congr Iff.rfl rfl (if_congr Iff.rfl rfl (if_congr Iff.rfl rfl ?_))
  cases status with
  | error status => rfl
  | ok =>
    rw [dhcpVerdict]
    split_ifs with hbad hgood hgood
    · rcases hgood with htype | htype
      · exact absurd htype hbad.1
      · exact absurd htype hbad.2
    · rfl
    · rfl
    · push Not at hgood
      exact absurd hgood hbad

/-- **The parser ends on any bytes**, with all its accesses in order. -/
lemma joshDhcpParseReply_total (p : List UInt8) (expectedXid : UInt32) (out : DhcpOffer) :
    ∃ r, joshDhcpParseReply p expectedXid out = some r := by
  by_cases hshort : p.length < 240
  · rw [joshDhcpParseReply, if_pos hshort]
    exact ⟨_, rfl⟩
  obtain ⟨r, hoptions⟩ := dhcpOptions_total (show p.length < 240 + (p.length + 1) by omega)
    (not_lt.mp hshort) { offeredIp := copyBytes 4 p 16 }
  rw [joshDhcpParseReply_eq (not_lt.mp hshort), hoptions]
  split_ifs
  · exact ⟨_, rfl⟩
  · exact ⟨_, rfl⟩
  · exact ⟨_, rfl⟩
  · exact ⟨_, rfl⟩

/-! ### Well-formed options -/

/-- An option of any code but those of padding and end. -/
structure DhcpOption where
  code : UInt8
  value : List UInt8
  code_ne_pad : code ≠ 0
  code_ne_end : code ≠ 255
  length_value : value.length ≤ 255

/-- What stands in a list of options. -/
inductive DhcpItem
  | pad
  | option (o : DhcpOption)

namespace DhcpItem

def encode : DhcpItem → List UInt8
  | pad => [0]
  | option o => o.code :: UInt8.ofNat o.value.length :: o.value

def toOption : DhcpItem → Option DhcpOption
  | pad => none
  | option o => some o

lemma length_encode_pos (item : DhcpItem) : 0 < item.encode.length := by
  cases item with
  | pad => exact Nat.one_pos
  | option o => exact Nat.succ_pos _

end DhcpItem

/-- How a list of options ends: with the packet, or with an end byte and anything behind it. -/
inductive DhcpEnd : List UInt8 → Prop
  | packet : DhcpEnd []
  | marked (trailing : List UInt8) : DhcpEnd (255 :: trailing)

/-- What an option does to an offer, by its value. -/
def DhcpOffer.after (out : DhcpOffer) (o : DhcpOption) : DhcpOffer where
  messageType :=
    if o.code = 53 ∧ o.value.length = 1 then o.value.getD 0 0 else out.messageType
  offeredIp := out.offeredIp
  serverId := if o.code = 54 ∧ o.value.length = 4 then copyBytes 4 o.value 0 else out.serverId
  subnetMask := if o.code = 1 ∧ o.value.length = 4 then copyBytes 4 o.value 0 else out.subnetMask
  router := if o.code = 3 ∧ 4 ≤ o.value.length then copyBytes 4 o.value 0 else out.router
  dns := if o.code = 6 ∧ 4 ≤ o.value.length then copyBytes 4 o.value 0 else out.dns
  leaseSeconds :=
    if o.code = 51 ∧ o.value.length = 4 then readBe32 o.value 0 else out.leaseSeconds

/-- The length byte of an option counts its value. -/
lemma DhcpOption.toNat_length (o : DhcpOption) :
    (UInt8.ofNat o.value.length).toNat = o.value.length := by
  have := o.length_value
  rw [UInt8.toNat_ofNat']
  omega

/-- Bytes behind `pos` are those of what is left. -/
lemma getD_of_drop_append {bytes : List UInt8} (h : p.drop pos = bytes ++ rest) {i : ℕ}
    (hi : i < bytes.length) : p.getD (pos + i) 0 = bytes.getD i 0 := by
  rw [getD_of_drop h i, getD_append _ _ _ _ hi]

/-- **One option**: it is taken in by its value, wherever it stands. -/
lemma dhcpOption_eq {o : DhcpOption} (h : p.drop pos = o.value ++ rest)
    (hpos : pos ≤ p.length) (out : DhcpOffer) :
    dhcpOption p o.code (UInt8.ofNat o.value.length) pos out = some (out.after o) := by
  have hlength : pos + (o.value.length + rest.length) = p.length := by
    rw [← length_append, ← h, length_drop]
    omega
  have hnat := o.toNat_length
  have hone : UInt8.ofNat o.value.length = 1 ↔ o.value.length = 1 := by
    rw [← UInt8.toNat_inj, hnat]
    rfl
  have hfour : UInt8.ofNat o.value.length = 4 ↔ o.value.length = 4 := by
    rw [← UInt8.toNat_inj, hnat]
    rfl
  have hle : 4 ≤ UInt8.ofNat o.value.length ↔ 4 ≤ o.value.length := by
    rw [UInt8.le_iff_toNat_le, hnat]
    rfl
  have haddress : 4 ≤ o.value.length → copyAt 4 p pos = some (copyBytes 4 o.value 0) := by
    intro hlong
    rw [copyAt_of_le (by omega)]
    congr 1
    funext i
    simp only [copyBytes, Nat.zero_add]
    exact getD_of_drop_append h (by omega)
  have hlong : o.value.length = 4 → longAt p pos = some (readBe32 o.value 0) := by
    intro hvalue
    rw [longAt_of_le (by omega), readBe32, readBe32]
    rw [show p.getD pos 0 = _ from getD_of_drop_append (i := 0) h (by omega),
      getD_of_drop_append (i := 1) h (by omega), getD_of_drop_append (i := 2) h (by omega),
      getD_of_drop_append (i := 3) h (by omega)]
  have hbyte : o.value.length = 1 → byteAt p pos = some (o.value.getD 0 0) := by
    intro hvalue
    obtain ⟨b, hb⟩ := length_eq_one_iff.mp hvalue
    rw [hb] at h ⊢
    exact (byteAt_of_drop h).1
  simp only [dhcpOption, hone, hfour, hle]
  split_ifs with htype hserver hmask hrouter hdns hlease
  · rw [hbyte htype.2]
    simp [DhcpOffer.after, htype.1, htype.2]
  · rw [haddress hserver.2.ge]
    simp [DhcpOffer.after, hserver.1, hserver.2]
  · rw [haddress hmask.2.ge]
    simp [DhcpOffer.after, hmask.1, hmask.2]
  · rw [haddress hrouter.2]
    simp [DhcpOffer.after, hrouter.1, hrouter.2]
  · rw [haddress hdns.2]
    simp [DhcpOffer.after, hdns.1, hdns.2]
  · rw [hlong hlease.2]
    simp [DhcpOffer.after, hlease.1, hlease.2]
  · simp [DhcpOffer.after, htype, hserver, hmask, hrouter, hdns, hlease]

/-- The loop stops at the end of the list. -/
lemma dhcpOptions_end {ending : List UInt8} (hend : DhcpEnd ending) (h : p.drop pos = ending)
    (out : DhcpOffer) : dhcpOptions p (fuel + 1) pos out = some (.ok (), out) := by
  cases hend with
  | packet =>
    rw [dhcpOptions, if_pos (drop_eq_nil_iff.mp h)]
    rfl
  | marked trailing =>
    obtain ⟨hbyte, hlt, -⟩ := byteAt_of_drop h
    simp [dhcpOptions, not_le.mpr hlt, hbyte]

/-- Padding is passed over. -/
lemma dhcpOptions_pad (h : p.drop pos = 0 :: rest) (out : DhcpOffer) :
    dhcpOptions p (fuel + 1) pos out = dhcpOptions p fuel (pos + 1) out := by
  obtain ⟨hbyte, hlt, -⟩ := byteAt_of_drop h
  simp [dhcpOptions, not_le.mpr hlt, hbyte]

/-- An option is taken in and passed over. -/
lemma dhcpOptions_option {o : DhcpOption}
    (h : p.drop pos = o.code :: UInt8.ofNat o.value.length :: (o.value ++ rest))
    (out : DhcpOffer) :
    dhcpOptions p (fuel + 1) pos out =
      dhcpOptions p fuel (pos + (DhcpItem.option o).encode.length) (out.after o) := by
  obtain ⟨hcode, hlt, hnext⟩ := byteAt_of_drop h
  obtain ⟨hlength, hlt', hvalue⟩ := byteAt_of_drop hnext
  have hminus := minus_of_drop hvalue hlt'
  have hfits : ¬ (o.value ++ rest).length < o.value.length := by simp
  have hlen : pos + (DhcpItem.option o).encode.length = pos + 1 + 1 + o.value.length := by
    simp only [DhcpItem.encode, length_cons]
    omega
  simp only [dhcpOptions, not_le.mpr hlt, hcode, o.code_ne_pad, o.code_ne_end, not_le.mpr hlt',
    hlength, hminus, o.toNat_length, hfits, dhcpOption_eq hvalue hlt', hlen, if_false,
    Option.bind_eq_bind, Option.bind_some]

/-- **The loop takes in the options that were encoded**, in their order. -/
lemma dhcpOptions_encode {items : List DhcpItem} {ending : List UInt8} (hend : DhcpEnd ending)
    (hfuel : items.length < fuel) (h : p.drop pos = items.flatMap DhcpItem.encode ++ ending)
    (out : DhcpOffer) :
    dhcpOptions p fuel pos out =
      some (.ok (), (items.filterMap DhcpItem.toOption).foldl DhcpOffer.after out) := by
  induction items generalizing fuel pos out with
  | nil =>
    obtain ⟨fuel, rfl⟩ := Nat.exists_eq_add_one.mpr (Nat.zero_lt_of_lt hfuel)
    exact dhcpOptions_end hend h out
  | cons item items ih =>
    obtain ⟨fuel, rfl⟩ := Nat.exists_eq_add_one.mpr (Nat.zero_lt_of_lt hfuel)
    have hless : items.length < fuel := Nat.lt_of_succ_lt_succ hfuel
    rw [flatMap_cons, append_assoc] at h
    have hnext : p.drop (pos + item.encode.length) =
        items.flatMap DhcpItem.encode ++ ending := by
      rw [← drop_drop, h, drop_left' rfl]
    cases item with
    | pad =>
      rw [dhcpOptions_pad h]
      exact ih hless hnext out
    | option o =>
      rw [dhcpOptions_option h]
      exact ih hless hnext (out.after o)

lemma length_le_length_encode (items : List DhcpItem) :
    items.length ≤ (items.flatMap DhcpItem.encode).length := by
  induction items with
  | nil => rfl
  | cons item items ih =>
    have := item.length_encode_pos
    rw [flatMap_cons, length_append, length_cons]
    omega

/-! ### The last occurrence of an option -/

/-- The value of the last option of a code with an accepted length. -/
def lastValue (code : UInt8) (accepts : ℕ → Prop) [DecidablePred accepts]
    (options : List DhcpOption) : Option (List UInt8) :=
  (options.filter fun o => o.code = code ∧ accepts o.value.length).getLast?.map DhcpOption.value

/-- A field that every such option overwrites ends with the value of the last one. -/
lemma foldl_last {α : Type} {code : UInt8} {accepts : ℕ → Prop} [DecidablePred accepts]
    {field : DhcpOffer → α} {read : List UInt8 → α}
    (hfield : ∀ (out : DhcpOffer) (o : DhcpOption), field (out.after o) =
      if o.code = code ∧ accepts o.value.length then read o.value else field out)
    (options : List DhcpOption) (out : DhcpOffer) :
    field (options.foldl DhcpOffer.after out) =
      (lastValue code accepts options).elim (field out) read := by
  induction options using reverseRecOn with
  | nil => rfl
  | append_singleton options o ih =>
    rw [foldl_append, foldl_cons, foldl_nil, hfield, lastValue,
      filter_append]
    by_cases ho : o.code = code ∧ accepts o.value.length
    · simp [ho]
    · rw [if_neg ho, ih, lastValue]
      simp [ho]

/-- What a list of options offers, with `offeredIp` from the fixed part. -/
def offerOf (offeredIp : Ipv4Address) (options : List DhcpOption) : DhcpOffer where
  messageType := (lastValue 53 (· = 1) options).elim 0 (·.getD 0 0)
  offeredIp := offeredIp
  serverId := (lastValue 54 (· = 4) options).elim (fun _ => 0) (copyBytes 4 · 0)
  subnetMask := (lastValue 1 (· = 4) options).elim (fun _ => 0) (copyBytes 4 · 0)
  router := (lastValue 3 (4 ≤ ·) options).elim (fun _ => 0) (copyBytes 4 · 0)
  dns := (lastValue 6 (4 ≤ ·) options).elim (fun _ => 0) (copyBytes 4 · 0)
  leaseSeconds := (lastValue 51 (· = 4) options).elim 0 (readBe32 · 0)

/-- No option touches the offered address. -/
lemma foldl_offeredIp (options : List DhcpOption) (out : DhcpOffer) :
    (options.foldl DhcpOffer.after out).offeredIp = out.offeredIp := by
  induction options generalizing out with
  | nil => rfl
  | cons o options ih => exact ih (out.after o)

/-- Taking in the options one by one gives each field the last value for it. -/
lemma foldl_after_eq (offeredIp : Ipv4Address) (options : List DhcpOption) :
    options.foldl DhcpOffer.after { offeredIp := offeredIp } = offerOf offeredIp options := by
  apply DhcpOffer.ext
  case messageType => exact foldl_last (fun _ _ => rfl) options _
  case offeredIp => exact foldl_offeredIp options _
  case serverId => exact foldl_last (fun _ _ => rfl) options _
  case subnetMask => exact foldl_last (fun _ _ => rfl) options _
  case router => exact foldl_last (fun _ _ => rfl) options _
  case dns => exact foldl_last (fun _ _ => rfl) options _
  case leaseSeconds => exact foldl_last (fun _ _ => rfl) options _

/-! ### The parser -/

/-- The fixed part of a reply to the request `xid`. -/
structure DhcpFixed (fixed : List UInt8) (xid : UInt32) : Prop where
  length : fixed.length = 240
  op : fixed.getD 0 0 = 2
  htype : fixed.getD 1 0 = 1
  hlen : fixed.getD 2 0 = 6
  xid_eq : readBe32 fixed 4 = xid
  cookie : readBe32 fixed 236 = 0x63825363

/-- **A well-formed reply** is read as what its options say, those of one code overwriting each
other. -/
lemma joshDhcpParseReply_encode {fixed ending : List UInt8} {xid : UInt32}
    (hfixed : DhcpFixed fixed xid) (items : List DhcpItem) (hend : DhcpEnd ending)
    (out : DhcpOffer) :
    joshDhcpParseReply (fixed ++ (items.flatMap DhcpItem.encode ++ ending)) xid out =
      some (dhcpVerdict (.ok (),
        offerOf (copyBytes 4 fixed 16) (items.filterMap DhcpItem.toOption))) := by
  obtain ⟨hlength, hop, hhtype, hhlen, hxid, hcookie⟩ := hfixed
  set p := fixed ++ (items.flatMap DhcpItem.encode ++ ending) with hp
  have hlong : 240 ≤ p.length := by
    rw [hp, length_append]
    omega
  have hget {i : ℕ} (hi : i < 240) : p.getD i 0 = fixed.getD i 0 :=
    getD_append _ _ _ _ (by omega)
  have hread {i : ℕ} (hi : i + 3 < 240) : readBe32 p i = readBe32 fixed i := by
    rw [readBe32, readBe32, hget (by omega), hget (by omega), hget (by omega), hget (by omega)]
  have haddress : copyBytes 4 p 16 = copyBytes 4 fixed 16 := by
    funext i
    exact hget (by omega)
  have hfuel : items.length < p.length + 1 := by
    have := length_le_length_encode items
    rw [hp, length_append, length_append]
    omega
  rw [joshDhcpParseReply_eq hlong, hget (by omega), hget (by omega), hget (by omega),
    hread (by omega), hread (by omega), haddress, hop, hhtype, hhlen, hxid, hcookie,
    if_neg (by decide), if_neg (by simp), if_neg (by simp),
    dhcpOptions_encode hend hfuel (drop_left' hlength), foldl_after_eq]
  rfl

/-- The message type of an offer is one of the two accepted exactly when the last option for
it says so. -/
lemma offerOf_messageType_iff (offeredIp : Ipv4Address) (options : List DhcpOption) {b : UInt8}
    (hb : b ≠ 0) :
    (offerOf offeredIp options).messageType = b ↔ lastValue 53 (· = 1) options = some [b] := by
  cases hlast : lastValue 53 (· = 1) options with
  | none => simp [offerOf, hlast, hb.symm]
  | some value =>
    have hone : value.length = 1 := by
      obtain ⟨o, ho, rfl⟩ := Option.map_eq_some_iff.mp hlast
      have := mem_filter.mp (mem_of_getLast? ho)
      simpa using (of_decide_eq_true this.2).2
    obtain ⟨c, rfl⟩ := length_eq_one_iff.mp hone
    simp [offerOf, hlast]

/-- **The parser of DHCP replies.**  On any bytes it ends with every read below the length and
no difference that wraps.  On a reply with any options and any padding between them, it
returns `JOSH_NET_OK` just when the last option 53 of one byte says 2 or 5, and
`JOSH_NET_ERR_MALFORMED` otherwise; each field is then the value of the last option for it
with an accepted length, zero if there is none. -/
theorem dhcp_reply_parsed :
    (∀ p xid out, ∃ status out', joshDhcpParseReply p xid out = some (status, out')) ∧
    ∀ (fixed : List UInt8) (xid : UInt32) (items : List DhcpItem) (ending : List UInt8)
      (out : DhcpOffer), DhcpFixed fixed xid → DhcpEnd ending →
      let options := items.filterMap DhcpItem.toOption
      let messageType := lastValue 53 (· = 1) options
      ∃ status offer,
        joshDhcpParseReply (fixed ++ (items.flatMap DhcpItem.encode ++ ending)) xid out =
          some (status, offer) ∧
        (status = .ok () ↔ messageType = some [2] ∨ messageType = some [5]) ∧
        (status ≠ .ok () → status = .error .malformed) ∧
        (status = .ok () → offer = offerOf (copyBytes 4 fixed 16) options) := by
  refine ⟨fun p xid out => ?_, ?_⟩
  · obtain ⟨⟨status, out'⟩, h⟩ := joshDhcpParseReply_total p xid out
    exact ⟨status, out', h⟩
  · intro fixed xid items ending out hfixed hend options messageType
    refine ⟨_, _, joshDhcpParseReply_encode hfixed items hend out, ?_, ?_, fun _ => rfl⟩
    · have htwo := offerOf_messageType_iff (copyBytes 4 fixed 16) options (b := 2) (by decide)
      have hfive := offerOf_messageType_iff (copyBytes 4 fixed 16) options (b := 5) (by decide)
      rw [← htwo, ← hfive]
      split_ifs with htype
      · exact iff_of_true rfl htype
      · exact iff_of_false (fun h => by cases h) htype
    · split_ifs
      · exact fun h => absurd rfl h
      · exact fun _ => rfl

/-- The fixed part of a reply to request 7. -/
def replyToSeven : List UInt8 :=
  [2, 1, 6, 0, 0, 0, 0, 7] ++ List.replicate 228 0 ++ [0x63, 0x82, 0x53, 0x63]

/-- A message type, padding, and a later message type that replaces the first. -/
def retypedItems : List DhcpItem :=
  [.option ⟨53, [2], by decide, by decide, by decide⟩, .pad,
    .option ⟨53, [5], by decide, by decide, by decide⟩]

theorem dhcp_reply_parsed_retyped :
    ∃ offer, joshDhcpParseReply
      (replyToSeven ++ (retypedItems.flatMap DhcpItem.encode ++ [255, 53])) 7 {} =
        some (.ok (), offer) := by
  obtain ⟨status, offer, hparse, hok, -⟩ := dhcp_reply_parsed.2 replyToSeven 7 retypedItems
    [255, 53] {} ⟨rfl, rfl, rfl, rfl, by decide, by decide⟩ (.marked [53])
  have hstatus : status = .ok () := hok.mpr (Or.inr rfl)
  exact ⟨offer, hstatus ▸ hparse⟩

end JoshOS.Net
