import JoshOS.Net.Wire

/-!
DNS names as the stack writes them and as it reads them.

* `dns_query_agrees`: the two sides agree on a query exactly when its host name has at most
  127 labels.
-/

namespace JoshOS.Net

open List

/-! ### Names -/

/-- Labels on the wire: each behind its length. -/
def encodeLabels : List (List UInt8) → List UInt8
  | [] => []
  | label :: labels => UInt8.ofNat label.length :: (label ++ encodeLabels labels)

/-- The labels of a host name: what stands between its dots. -/
structure LabelsOf (hostname : List UInt8) (labels : List (List UInt8)) : Prop where
  joined : [dot].intercalate labels = hostname
  ne_nil : labels ≠ []
  sized : ∀ label ∈ labels, 0 < label.length ∧ label.length ≤ 63
  undotted : ∀ label ∈ labels, dot ∉ label

/-- The end of a name on the wire: a zero byte or a compression pointer. -/
inductive NameEnd : List UInt8 → Prop
  | root : NameEnd [0]
  | pointer (high low : UInt8) (h : high &&& 0xc0 = 0xc0) : NameEnd [high, low]

variable {p rest : List UInt8} {labels : List (List UInt8)} {hostname ending : List UInt8}
  {pos fuel capacity : ℕ} {buffer : Ipv4Address}

lemma length_le_length_encodeLabels (labels : List (List UInt8)) :
    labels.length ≤ (encodeLabels labels).length := by
  induction labels with
  | nil => rfl
  | cons label labels ih =>
    simp only [encodeLabels, length_cons, length_append]
    omega

/-- A host name has one label more than dots. -/
lemma LabelsOf.length_eq (h : LabelsOf hostname labels) :
    labels.length = hostname.count dot + 1 := by
  obtain ⟨rfl, hne, -, hundotted⟩ := h
  induction labels with
  | nil => exact absurd rfl hne
  | cons label labels ih =>
    have hlabel : label.count dot = 0 :=
      count_eq_zero.mpr (hundotted label mem_cons_self)
    cases labels with
    | nil => simp [hlabel]
    | cons next labels =>
      have := ih (cons_ne_nil _ _) fun l hl => hundotted l (mem_cons_of_mem _ hl)
      rw [intercalate_cons_cons, count_append, count_append, hlabel,
        count_singleton_self, length_cons, this]
      omega

/-! ### The builder -/

/-- **What the builder writes**: the labels of the host name, all of a proper size, with room
left for the end of the question. -/
lemma buildLabels_eq_some {out built : List UInt8}
    (h : buildLabels capacity fuel out hostname = some built) :
    ∃ labels, LabelsOf hostname labels ∧ built = out ++ encodeLabels labels ∧
      built.length + 5 ≤ capacity := by
  induction fuel generalizing out hostname with
  | zero => cases h
  | succ fuel ih =>
    rw [buildLabels] at h
    set label := hostname.takeWhile (· ≠ dot) with hlabel
    have hundotted : dot ∉ label := fun hmem => by
      simpa using mem_takeWhile_imp hmem
    have hsplit : label ++ hostname.dropWhile (· ≠ dot) = hostname :=
      takeWhile_append_dropWhile
    dsimp only at h
    split_ifs at h with hbad
    push Not at hbad
    obtain ⟨hpos, hsize, hroom⟩ := hbad
    have hsized : 0 < label.length ∧ label.length ≤ 63 := ⟨Nat.pos_of_ne_zero hpos, hsize⟩
    split at h
    next hend =>
      -- The last label: the name ends with it.
      obtain rfl := Option.some.inj h
      rw [hend, append_nil] at hsplit
      refine ⟨[label], ⟨by rw [intercalate_singleton, hsplit], by simp, ?_, ?_⟩, ?_, ?_⟩
      · simpa using hsized
      · simpa using hundotted
      · simp [encodeLabels]
      · simp only [length_append, length_cons]
        omega
    next c more hmore =>
      obtain ⟨labels, hlabels, rfl, hlength⟩ := ih h
      have hc : c = dot := by
        have := head?_dropWhile_not (· ≠ dot) hostname
        rw [hmore] at this
        simpa using this
      refine ⟨label :: labels, ⟨?_, cons_ne_nil _ _, ?_, ?_⟩, ?_, hlength⟩
      · obtain ⟨next, labels, rfl⟩ := exists_cons_of_ne_nil hlabels.ne_nil
        rw [intercalate_cons_cons, hlabels.joined, ← hsplit, hmore, hc]
        simp
      · simpa using ⟨hsized, hlabels.sized⟩
      · simpa using ⟨hundotted, hlabels.undotted⟩
      · simp [encodeLabels]

/-! ### The name skipper -/

/-- A byte at the head of what is left is read. -/
lemma byteAt_of_drop {b : UInt8} (h : p.drop pos = b :: rest) :
    byteAt p pos = some b ∧ pos < p.length ∧ p.drop (pos + 1) = rest := by
  have hlt : pos < p.length := by
    by_contra hle
    rw [drop_eq_nil_of_le (by omega)] at h
    cases h
  refine ⟨?_, hlt, ?_⟩
  · rw [byteAt, ← head?_drop, h, head?_cons]
  · rw [← drop_drop, h, drop_one, tail_cons]

/-- What a name ends with is passed over. -/
lemma skipName_end (hend : NameEnd ending) (h : p.drop pos = ending ++ rest) (labels : ℕ) :
    skipName p (fuel + 1) pos labels = some (.ok (pos + ending.length)) := by
  cases hend with
  | root =>
    obtain ⟨hbyte, hlt, -⟩ := byteAt_of_drop h
    simp [skipName, hbyte, not_le.mpr hlt]
  | pointer high low hhigh =>
    obtain ⟨hbyte, hlt, hnext⟩ := byteAt_of_drop h
    obtain ⟨-, hlt', -⟩ := byteAt_of_drop hnext
    have hne : high ≠ 0 := fun h0 => by
      rw [h0] at hhigh
      exact absurd hhigh (by decide)
    simp [skipName, hbyte, not_le.mpr hlt, hne, hhigh, not_le.mpr hlt']

/-- The length byte of a label is neither the end of a name nor a pointer. -/
lemma lengthByte {n : ℕ} (hpos : 0 < n) (hle : n ≤ 63) :
    UInt8.ofNat n ≠ 0 ∧ UInt8.ofNat n &&& 0xc0 = 0 ∧ ¬ 63 < UInt8.ofNat n ∧
      (UInt8.ofNat n).toNat = n := by
  have hall : ∀ n < 64, 0 < n → UInt8.ofNat n ≠ 0 ∧ UInt8.ofNat n &&& 0xc0 = 0 ∧
      ¬ 63 < UInt8.ofNat n ∧ (UInt8.ofNat n).toNat = n := by decide
  exact hall n (by omega) hpos

/-- A label is passed over unless it is the 128th. -/
lemma skipName_label {label : List UInt8} (hsized : 0 < label.length ∧ label.length ≤ 63)
    (h : p.drop pos = UInt8.ofNat label.length :: (label ++ rest)) (labels : ℕ) :
    skipName p (fuel + 1) pos labels =
      if 127 < labels + 1 then some (.error .malformed)
      else skipName p fuel (pos + 1 + label.length) (labels + 1) := by
  obtain ⟨hbyte, hlt, hnext⟩ := byteAt_of_drop h
  obtain ⟨hne, hbits, hsmall, htoNat⟩ := lengthByte hsized.1 hsized.2
  have hleft : p.length - (pos + 1) = label.length + rest.length := by
    rw [← length_drop, hnext, length_append]
  have hminus : minus p.length (pos + 1) = some (label.length + rest.length) := by
    rw [minus, if_pos (by omega), hleft]
  have hc0 : ¬ (0 : UInt8) = 0xc0 := by decide
  have hfits : ¬ label.length + rest.length < label.length := by omega
  simp [skipName, hbyte, not_le.mpr hlt, hne, hbits, hc0, hminus, hsmall, htoNat, hfits]

/-- The skipper passes over the labels it still has room for. -/
lemma skipName_labels (hend : NameEnd ending) {before : ℕ} (hbefore : before ≤ 127)
    (hsized : ∀ label ∈ labels, 0 < label.length ∧ label.length ≤ 63)
    (hfuel : labels.length < fuel) (h : p.drop pos = encodeLabels labels ++ (ending ++ rest)) :
    skipName p fuel pos before =
      if before + labels.length ≤ 127 then
        some (.ok (pos + (encodeLabels labels).length + ending.length))
      else some (.error .malformed) := by
  induction labels generalizing fuel pos before with
  | nil =>
    obtain ⟨fuel, rfl⟩ := Nat.exists_eq_add_of_lt hfuel
    rw [skipName_end hend h, if_pos (by simpa using hbefore)]
    rfl
  | cons label labels ih =>
    obtain ⟨fuel, rfl⟩ := Nat.exists_eq_add_of_lt hfuel
    rw [encodeLabels, cons_append, append_assoc] at h
    rw [skipName_label (hsized label mem_cons_self) h]
    by_cases hfull : 127 < before + 1
    · rw [if_pos hfull, if_neg (by simp only [length_cons]; omega)]
    · have hnext : p.drop (pos + 1 + label.length) = encodeLabels labels ++ (ending ++ rest) := by
        rw [← drop_drop, (byteAt_of_drop h).2.2, drop_left' rfl]
      rw [if_neg hfull, ih (by omega) (fun l hl => hsized l (mem_cons_of_mem _ hl))
        (by simp only [length_cons]; omega) hnext]
      simp only [encodeLabels, length_cons, length_append]
      congr 1
      · rw [eq_iff_iff]
        omega
      · congr 2
        omega

/-- **The name skipper** on a name of proper labels: it is passed over exactly when it has at
most 127 of them. -/
lemma dnsSkipName_labels (hend : NameEnd ending)
    (hsized : ∀ label ∈ labels, 0 < label.length ∧ label.length ≤ 63)
    (h : p.drop pos = encodeLabels labels ++ (ending ++ rest)) :
    dnsSkipName p pos =
      if labels.length ≤ 127 then
        some (.ok (pos + (encodeLabels labels).length + ending.length))
      else some (.error .malformed) := by
  have hlength : labels.length ≤ p.length := by
    have h1 := length_le_length_encodeLabels labels
    have h2 := congrArg length h
    rw [length_drop, length_append] at h2
    omega
  rw [dnsSkipName, skipName_labels hend (Nat.zero_le _) hsized (by omega) h, Nat.zero_add]

/-! ### Responses -/

/-- An A record of class IN behind its name. -/
def answer (name : List UInt8) (ttl : Fin 4 → UInt8) (address : Ipv4Address) : List UInt8 :=
  name ++ (writeBe16 1 ++ writeBe16 1 ++ List.ofFn ttl ++ writeBe16 4 ++ List.ofFn address)

/-- The response to a query: its id, new flags, one question and one answer, the question
itself and then `record`. -/
def responseTo (query : List UInt8) (flags : UInt16) (record : List UInt8) : List UInt8 :=
  query.take 2 ++ writeBe16 flags ++ writeBe16 1 ++ writeBe16 1 ++ query.drop 8 ++ record

/-- A name the skipper is made for: at most 127 labels of a proper size and an end. -/
def WireName (name : List UInt8) : Prop :=
  ∃ labels ending, name = encodeLabels labels ++ ending ∧ NameEnd ending ∧
    (∀ label ∈ labels, 0 < label.length ∧ label.length ≤ 63) ∧ labels.length ≤ 127

/-- The flags of a response without error: QR set and RCODE zero. -/
def IsResponse (flags : UInt16) : Prop := flags &&& 0x8000 ≠ 0 ∧ flags &&& 0x000f = 0

lemma getD_of_drop {bytes : List UInt8} (h : p.drop pos = bytes) (i : ℕ) :
    p.getD (pos + i) 0 = bytes.getD i 0 := by
  rw [← h, getD_eq_getElem?_getD, getD_eq_getElem?_getD, getElem?_drop]

lemma wordAt_of_drop {value : UInt16} (h : p.drop pos = writeBe16 value ++ rest) :
    wordAt p pos = some value := by
  obtain ⟨hhigh, -, hnext⟩ := byteAt_of_drop h
  obtain ⟨hlow, -, -⟩ := byteAt_of_drop hnext
  have hread : readBe16 p pos = value :=
    readBe16_of_bytes (getD_of_drop h 0) (getD_of_drop h 1)
  simp [wordAt, hhigh, hlow, hread]

/-- What is left behind `offset` can be subtracted. -/
lemma minus_of_drop {bytes : List UInt8} (h : p.drop pos = bytes) (hpos : pos ≤ p.length) :
    minus p.length pos = some bytes.length := by
  rw [minus, if_pos hpos, ← h, length_drop]

/-- A record without its name. -/
def recordBody (type klass : UInt16) (ttl : Fin 4 → UInt8) (rdata : List UInt8) : List UInt8 :=
  writeBe16 type ++ (writeBe16 klass ++ (List.ofFn ttl ++
    (writeBe16 (UInt16.ofNat rdata.length) ++ rdata)))

lemma length_recordBody (type klass : UInt16) (ttl : Fin 4 → UInt8) (rdata : List UInt8) :
    (recordBody type klass ttl rdata).length = 10 + rdata.length := by
  simp only [recordBody, length_append, length_writeBe16, length_ofFn]
  omega

/-- **A round of the loop over the answers**, where the name of the record is passed over: an
A record of class IN with four bytes is taken, and any other is passed over. -/
lemma findAddress_record {name rdata : List UInt8} {type klass : UInt16} {ttl : Fin 4 → UInt8}
    {answers : ℕ} (hname : dnsSkipName p pos = some (.ok (pos + name.length)))
    (hsize : rdata.length < 2 ^ 16)
    (h : p.drop pos = name ++ (recordBody type klass ttl rdata ++ rest)) :
    findAddress p buffer (answers + 1) pos =
      if type = 1 ∧ klass = 1 ∧ rdata.length = 4 then some (.ok (), fun i => rdata.getD i.val 0)
      else findAddress p buffer answers (pos + (name.length + (10 + rdata.length))) := by
  have hend : pos + name.length + 10 + rdata.length ≤ p.length := by
    have hlength := congrArg length h
    rw [length_drop, length_append, length_append, length_recordBody] at hlength
    omega
  rw [← Nat.add_assoc pos, ← Nat.add_assoc]
  set offset := pos + name.length with hoffset
  have hbody : p.drop offset = writeBe16 type ++ (writeBe16 klass ++ (ofFn ttl ++
      (writeBe16 (UInt16.ofNat rdata.length) ++ (rdata ++ rest)))) := by
    rw [hoffset, ← drop_drop, h, drop_left' rfl]
    simp only [recordBody, append_assoc]
  have hklass : p.drop (offset + 2) = writeBe16 klass ++ (ofFn ttl ++
      (writeBe16 (UInt16.ofNat rdata.length) ++ (rdata ++ rest))) := by
    rw [← drop_drop, hbody]
    rfl
  have hrdlength : p.drop (offset + 8) =
      writeBe16 (UInt16.ofNat rdata.length) ++ (rdata ++ rest) := by
    rw [← drop_drop, hbody]
    rfl
  have hdata : p.drop (offset + 10) = rdata ++ rest := by
    rw [← drop_drop, hbody]
    rfl
  have htoNat : (UInt16.ofNat rdata.length).toNat = rdata.length := UInt16.toNat_ofNat_of_lt' hsize
  have hfour : UInt16.ofNat rdata.length = 4 ↔ rdata.length = 4 := by
    rw [← UInt16.toNat_inj, htoNat]
    rfl
  have hleft := minus_of_drop rfl (show offset ≤ p.length by omega)
  have hleft' := minus_of_drop hdata (by omega)
  have hroom : ¬ (p.drop offset).length < 10 := by
    rw [length_drop]
    omega
  have hfits : ¬ rdata.length + rest.length < rdata.length := by omega
  rw [length_append] at hleft'
  simp only [findAddress, hname, hleft, wordAt_of_drop hbody, wordAt_of_drop hklass,
    wordAt_of_drop hrdlength, hleft', htoNat, hfour, Option.bind_eq_bind, Option.bind_some, hroom,
    hfits, if_false]
  by_cases haddress : type = 1 ∧ klass = 1 ∧ rdata.length = 4
  · have hcopy : copyBytes 4 p (offset + 10) = fun i => rdata.getD i.val 0 := by
      funext i
      rw [copyBytes, getD_of_drop hdata, getD_append _ _ _ _ (by omega)]
    rw [if_pos haddress, if_pos haddress, copyAt, if_pos (by omega), hcopy]
    rfl
  · rw [if_neg haddress, if_neg haddress]

/-- The data of an A record is found where the name before it is passed over. -/
lemma findAddress_answer {name : List UInt8} {ttl : Fin 4 → UInt8} {address : Ipv4Address}
    {answers : ℕ} (hname : dnsSkipName p pos = some (.ok (pos + name.length)))
    (h : p.drop pos = answer name ttl address) :
    findAddress p buffer (answers + 1) pos = some (.ok (), address) := by
  have hrecord : p.drop pos = name ++ (recordBody 1 1 ttl (ofFn address) ++ []) := by
    rw [h, append_nil]
    simp only [answer, recordBody, append_assoc, length_ofFn]
    rfl
  have hlength : (ofFn address).length = 4 := length_ofFn
  rw [findAddress_record hname (by rw [hlength]; norm_num) hrecord, if_pos ⟨rfl, rfl, hlength⟩]
  congr 2
  funext i
  fin_cases i <;> rfl

/-- **A round of the loop over the questions**, where the name is passed over. -/
lemma skipQuestions_question {name : List UInt8} {type klass : UInt16} {questions : ℕ}
    (hname : dnsSkipName p pos = some (.ok (pos + name.length)))
    (h : p.drop pos = name ++ (writeBe16 type ++ writeBe16 klass ++ rest)) :
    skipQuestions p (questions + 1) pos = skipQuestions p questions (pos + (name.length + 4)) := by
  have hlength := congrArg length h
  simp only [length_drop, length_append, length_writeBe16] at hlength
  have hleft := minus_of_drop rfl (show pos + name.length ≤ p.length by omega)
  have hroom : ¬ (p.drop (pos + name.length)).length < 4 := by
    rw [length_drop]
    omega
  simp only [skipQuestions, hname, hleft, Option.bind_eq_bind, Option.bind_some, hroom, if_false,
    Nat.add_assoc]

/-- The question of a query is passed over exactly when its name is. -/
lemma skipQuestions_one
    (hsized : ∀ label ∈ labels, 0 < label.length ∧ label.length ≤ 63)
    (h : p.drop pos = encodeLabels labels ++ ([0] ++ (writeBe16 1 ++ writeBe16 1 ++ rest))) :
    skipQuestions p 1 pos =
      if labels.length ≤ 127 then some (.ok (pos + (encodeLabels labels).length + 5))
      else some (.error .malformed) := by
  have hskip := dnsSkipName_labels NameEnd.root hsized h
  by_cases hcount : labels.length ≤ 127
  · have hname : p.drop pos =
        (encodeLabels labels ++ [0]) ++ (writeBe16 1 ++ writeBe16 1 ++ rest) := by
      rw [h, append_assoc (encodeLabels labels)]
    rw [if_pos hcount] at hskip ⊢
    rw [skipQuestions_question (hskip.trans ?_) hname, skipQuestions, length_append,
      length_singleton]
    · congr 2
    · rw [length_append, Nat.add_assoc]
  · rw [if_neg hcount] at hskip
    simp [skipQuestions, hskip, hcount]

lemma WireName.skip {name : List UInt8} (hname : WireName name)
    (h : p.drop pos = name ++ rest) : dnsSkipName p pos = some (.ok (pos + name.length)) := by
  obtain ⟨labels, ending, rfl, hend, hsized, hcount⟩ := hname
  rw [append_assoc] at h
  rw [dnsSkipName_labels hend hsized h, if_pos hcount, length_append, Nat.add_assoc]

/-- The bytes of a header: the id, the flags, the two counts that are read and four bytes for
those that are not. -/
def responseHeader (transactionId flags questions answers : UInt16) (counts : Fin 4 → UInt8) :
    List UInt8 :=
  writeBe16 transactionId ++ (writeBe16 flags ++ (writeBe16 questions ++ (writeBe16 answers ++
    List.ofFn counts)))

lemma drop_responseHeader (transactionId flags questions answers : UInt16)
    (counts : Fin 4 → UInt8) (body : List UInt8) :
    (responseHeader transactionId flags questions answers counts ++ body).drop 12 = body :=
  drop_left' (by simp [responseHeader])

/-- Behind a proper header the questions are passed over and the answers are looked at. -/
lemma joshDnsParseAResponse_header {transactionId flags questions answers : UInt16}
    {counts : Fin 4 → UInt8} {body : List UInt8} (hflags : IsResponse flags)
    (h : p = responseHeader transactionId flags questions answers counts ++ body) :
    joshDnsParseAResponse p transactionId buffer =
      (skipQuestions p questions.toNat 12).bind fun
        | .error status => some (.error status, buffer)
        | .ok offset => findAddress p buffer answers.toNat offset := by
  have hlong : ¬ p.length < 12 := by
    rw [h]
    simp [responseHeader]
    omega
  have hgood : ¬ (flags &&& 0x8000 = 0 ∨ flags &&& 0x000f ≠ 0) := fun hbad =>
    hbad.elim hflags.1 (absurd hflags.2)
  have hid : wordAt p 0 = some transactionId := wordAt_of_drop (by rw [h]; rfl)
  have hflag : wordAt p 2 = some flags := wordAt_of_drop (by rw [h]; rfl)
  have hquestions : wordAt p 4 = some questions := wordAt_of_drop (by rw [h]; rfl)
  have hanswers : wordAt p 6 = some answers := wordAt_of_drop (by rw [h]; rfl)
  simp only [joshDnsParseAResponse, hlong, hid, hflag, hquestions, hanswers, hgood, ne_eq,
    not_true_eq_false, if_false, Option.bind_eq_bind, Option.bind_some]
  rfl

/-- The query of a host name with these labels. -/
def queryOf (transactionId : UInt16) (labels : List (List UInt8)) : List UInt8 :=
  queryHeader transactionId ++ encodeLabels labels ++ [0] ++ writeBe16 1 ++ writeBe16 1

/-- The response to a query with one A record is accepted exactly when the skipper passes over
the name of the question. -/
lemma joshDnsParseAResponse_answer (transactionId : UInt16) {flags : UInt16}
    {name : List UInt8} (ttl : Fin 4 → UInt8) (address buffer : Ipv4Address)
    (hsized : ∀ label ∈ labels, 0 < label.length ∧ label.length ≤ 63)
    (hflags : IsResponse flags) (hname : WireName name) :
    joshDnsParseAResponse
        (responseTo (queryOf transactionId labels) flags (answer name ttl address))
        transactionId buffer =
      if labels.length ≤ 127 then some (.ok (), address) else some (.error .malformed, buffer) := by
  set p := responseTo (queryOf transactionId labels) flags (answer name ttl address) with hp
  have hshape : p = responseHeader transactionId flags 1 1 (fun _ => 0) ++ (encodeLabels labels ++
      ([0] ++ (writeBe16 1 ++ writeBe16 1 ++ answer name ttl address))) := by
    simp [hp, responseTo, queryOf, queryHeader, responseHeader, writeBe16]
  have hquestion : p.drop 12 = encodeLabels labels ++ ([0] ++ (writeBe16 1 ++ writeBe16 1 ++
      answer name ttl address)) := by
    rw [hshape, drop_responseHeader]
  have hrecord : p.drop (12 + (encodeLabels labels).length + 5) = answer name ttl address := by
    rw [Nat.add_assoc, ← drop_drop, hquestion, ← drop_drop, drop_left' rfl]
    rfl
  have hfind : findAddress p buffer 1 (12 + (encodeLabels labels).length + 5) =
      some (.ok (), address) := findAddress_answer (hname.skip hrecord) hrecord
  have hone : (1 : UInt16).toNat = 1 := rfl
  rw [joshDnsParseAResponse_header hflags hshape, hone, skipQuestions_one hsized hquestion]
  by_cases hcount : labels.length ≤ 127
  · rw [if_pos hcount, if_pos hcount, Option.bind_some]
    exact hfind
  · rw [if_neg hcount, if_neg hcount]
    rfl

/-! ### Builder and parser together -/

lemma joshDnsBuildAQuery_eq_some {transactionId : UInt16} {query : List UInt8}
    (h : joshDnsBuildAQuery capacity transactionId hostname = some query) :
    ∃ labels, LabelsOf hostname labels ∧ query = queryOf transactionId labels ∧
      query.length ≤ capacity := by
  rw [joshDnsBuildAQuery] at h
  split_ifs at h
  split at h
  next => cases h
  next out hout =>
    obtain ⟨labels, hlabels, rfl, hroom⟩ := buildLabels_eq_some hout
    obtain rfl := Option.some.inj h
    refine ⟨labels, hlabels, rfl, ?_⟩
    simp only [length_append, length_writeBe16, length_singleton] at hroom ⊢
    omega

/-- **Query and parser agree up to 127 labels.**  A query that is built fits its buffer and
holds the labels of the host name, a zero byte, type and class.  The module's own name skipper
passes over the name to its end, and a response made of the query and one A record is accepted,
exactly when the host name has at most 126 dots: the builder does not count labels and the
skipper does. -/
theorem dns_query_agrees (capacity : ℕ) (transactionId : UInt16) (hostname query : List UInt8)
    (h : joshDnsBuildAQuery capacity transactionId hostname = some query) :
    query.length ≤ capacity ∧
    (∃ labels, LabelsOf hostname labels ∧
      query.drop 12 = encodeLabels labels ++ [0] ++ writeBe16 1 ++ writeBe16 1) ∧
    ((dnsSkipName query 12 = some (.ok (query.length - 4)) ∧
      ∀ flags name ttl address buffer, IsResponse flags → WireName name →
        joshDnsParseAResponse (responseTo query flags (answer name ttl address)) transactionId
          buffer = some (.ok (), address)) ↔
      hostname.count dot ≤ 126) := by
  obtain ⟨labels, hlabels, rfl, hcapacity⟩ := joshDnsBuildAQuery_eq_some h
  have hdrop : (queryOf transactionId labels).drop 12 =
      encodeLabels labels ++ [0] ++ writeBe16 1 ++ writeBe16 1 := by
    simp only [queryOf, List.append_assoc]
    rfl
  have hskip := dnsSkipName_labels NameEnd.root hlabels.sized
    (hdrop.trans (by simp only [List.append_assoc]; rfl))
  have hlength : (queryOf transactionId labels).length - 4 =
      12 + (encodeLabels labels).length + 1 := by
    simp [queryOf, queryHeader]
    omega
  have hcount := hlabels.length_eq
  refine ⟨hcapacity, ⟨labels, hlabels, hdrop⟩, ?_⟩
  rw [hlength, hskip]
  by_cases hle : labels.length ≤ 127
  · refine ⟨fun _ => by omega, fun _ => ⟨if_pos hle, ?_⟩⟩
    intro flags name ttl address buffer hflags hname
    rw [joshDnsParseAResponse_answer transactionId ttl address buffer hlabels.sized hflags
      hname, if_pos hle]
  · refine ⟨fun ⟨haccepted, _⟩ => ?_, fun hdots => by omega⟩
    rw [if_neg hle] at haccepted
    cases haccepted

/-- The query for `a.b`. -/
theorem dns_query_agrees_two_labels :
    let query := [0, 7, 1, 0, 0, 1, 0, 0, 0, 0, 0, 0, 1, 97, 1, 98, 0, 0, 1, 0, 1]
    query.length ≤ 64 ∧
    (∃ labels, LabelsOf [97, dot, 98] labels ∧
      query.drop 12 = encodeLabels labels ++ [0] ++ writeBe16 1 ++ writeBe16 1) ∧
    ((dnsSkipName query 12 = some (.ok (query.length - 4)) ∧
      ∀ flags name ttl address buffer, IsResponse flags → WireName name →
        joshDnsParseAResponse (responseTo query flags (answer name ttl address)) 7 buffer =
          some (.ok (), address)) ↔
      [97, dot, 98].count dot ≤ 126) :=
  dns_query_agrees 64 7 [97, dot, 98] _ (by decide)

/-- A host name of 128 one-letter labels gives a query of 273 bytes that the parser calls
malformed. -/
theorem dns_query_too_many_labels :
    let hostname := (List.replicate 127 [97, dot]).flatten ++ [97]
    let query := queryOf 7 (List.replicate 128 [97])
    joshDnsBuildAQuery 512 7 hostname = some query ∧ query.length = 273 ∧
      dnsSkipName query 12 = some (.error .malformed) ∧
      ∀ buffer, joshDnsParseAResponse
        (responseTo query 0x8180 (answer [0xc0, 12] (fun _ => 0) ![10, 0, 2, 3])) 7 buffer =
          some (.error .malformed, buffer) := by
  intro hostname query
  have hsized : ∀ label ∈ List.replicate 128 [(97 : UInt8)],
      0 < label.length ∧ label.length ≤ 63 := by
    intro label hlabel
    obtain rfl := List.eq_of_mem_replicate hlabel
    decide
  have hskip := dnsSkipName_labels NameEnd.root hsized
    (show query.drop 12 = encodeLabels (List.replicate 128 [97]) ++ ([0] ++
      (writeBe16 1 ++ writeBe16 1)) by decide +kernel)
  have hname : WireName [0xc0, 12] :=
    ⟨[], _, rfl, NameEnd.pointer 0xc0 12 rfl, by simp, Nat.zero_le _⟩
  have hcount : ¬ (List.replicate 128 [(97 : UInt8)]).length ≤ 127 := by
    rw [List.length_replicate]
    decide
  refine ⟨by decide +kernel, by decide +kernel, hskip.trans (if_neg hcount), fun buffer => ?_⟩
  have hresponse := joshDnsParseAResponse_answer 7 (fun _ => 0) ![10, 0, 2, 3] buffer hsized
    (show IsResponse 0x8180 from ⟨by decide, by decide⟩) hname
  exact hresponse.trans (if_neg hcount)

end JoshOS.Net
