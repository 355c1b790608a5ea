import JoshOS.Net.Dns

/-!
DNS responses and what `josh_dns_parse_a_response` makes of them.

* `DnsResponse`: a well-formed response, with any number of questions and answers.
* `dns_response_parsed`: the parser on any bytes, and on any well-formed response.
-/

namespace JoshOS.Net

open List

variable {p rest : List UInt8} {pos fuel : ℕ} {buffer : Ipv4Address}

/-! ### Any bytes -/

/-- There is a result, and an offset that it gives is not beyond the length. -/
def Within (p : List UInt8) (x : Option (Except JoshNetStatus ℕ)) : Prop :=
  ∃ r, x = some r ∧ ∀ offset, r = .ok offset → offset ≤ p.length

lemma Within.error (p : List UInt8) (status : JoshNetStatus) : Within p (some (.error status)) :=
  ⟨_, rfl, fun _ h => by cases h⟩

lemma Within.ok {offset : ℕ} (h : offset ≤ p.length) : Within p (some (.ok offset)) :=
  ⟨_, rfl, fun _ heq => Except.ok.inj heq ▸ h⟩

lemma byteAt_of_lt (h : pos < p.length) : ∃ b, byteAt p pos = some b :=
  ⟨p[pos], getElem?_eq_getElem h⟩

lemma minus_of_le {a b : ℕ} (h : b ≤ a) : minus a b = some (a - b) := if_pos h

lemma wordAt_of_le (h : pos + 2 ≤ p.length) : ∃ value, wordAt p pos = some value := by
  obtain ⟨high, hhigh⟩ := byteAt_of_lt (show pos < p.length by omega)
  obtain ⟨low, hlow⟩ := byteAt_of_lt (show pos + 1 < p.length by omega)
  exact ⟨readBe16 p pos, by simp [wordAt, hhigh, hlow]⟩

/-- **The loop of `dns_skip_name` ends.**  Each round moves on, and no label reaches beyond
the length. -/
lemma skipName_within {labels : ℕ} (hfuel : p.length < pos + fuel) (hpos : pos ≤ p.length) :
    Within p (skipName p fuel pos labels) := by
  induction fuel generalizing pos labels with
  | zero => omega
  | succ fuel ih =>
    by_cases hend : p.length ≤ pos
    · rw [skipName, if_pos hend]
      exact .error ..
    obtain ⟨size, hsize⟩ := byteAt_of_lt (Nat.not_le.mp hend)
    have hminus := minus_of_le (a := p.length) (b := pos + 1) (by omega)
    simp only [skipName, hend, hsize, hminus, if_false, Option.bind_eq_bind, Option.bind_some]
    split_ifs with hzero hpointer hlast hbad hmany
    · exact .ok (by omega)
    · exact .error ..
    · exact .ok (by omega)
    · exact .error ..
    · exact .error ..
    · exact ih (by omega) (by omega)

lemma dnsSkipName_within (hpos : pos ≤ p.length) : Within p (dnsSkipName p pos) :=
  skipName_within (by omega) hpos

/-- **The loop over the questions ends.** -/
lemma skipQuestions_within (questions : ℕ) (hpos : pos ≤ p.length) :
    Within p (skipQuestions p questions pos) := by
  induction questions generalizing pos with
  | zero => exact .ok hpos
  | succ questions ih =>
    obtain ⟨r, hskip, hr⟩ := dnsSkipName_within hpos
    rw [skipQuestions, hskip]
    cases r with
    | error status => exact .error ..
    | ok offset =>
      have hle := hr offset rfl
      simp only [minus_of_le hle, Option.bind_eq_bind, Option.bind_some]
      split_ifs with hshort
      · exact .error ..
      · exact ih (by omega)

/-- There is a result, and without `JOSH_NET_OK` the buffer is as it was. -/
def Answered (buffer : Ipv4Address) (x : Option (Except JoshNetStatus Unit × Ipv4Address)) :
    Prop :=
  ∃ status address, x = some (status, address) ∧ (status ≠ .ok () → address = buffer)

lemma Answered.error (buffer : Ipv4Address) (status : JoshNetStatus) :
    Answered buffer (some (.error status, buffer)) :=
  ⟨_, _, rfl, fun _ => rfl⟩

lemma Answered.ok (buffer address : Ipv4Address) : Answered buffer (some (.ok (), address)) :=
  ⟨_, _, rfl, fun h => absurd rfl h⟩

/-- **The loop over the answers ends.** -/
lemma findAddress_answered {answers : ℕ} (hpos : pos ≤ p.length) :
    Answered buffer (findAddress p buffer answers pos) := by
  induction answers generalizing pos with
  | zero => exact .error ..
  | succ answers ih =>
    obtain ⟨r, hskip, hr⟩ := dnsSkipName_within hpos
    rw [findAddress, hskip]
    cases r with
    | error status => exact .error ..
    | ok offset =>
      have hle := hr offset rfl
      simp only [minus_of_le hle, Option.bind_eq_bind, Option.bind_some]
      by_cases hshort : p.length - offset < 10
      · rw [if_pos hshort]
        exact .error ..
      obtain ⟨type, htype⟩ := wordAt_of_le (show offset + 2 ≤ p.length by omega)
      obtain ⟨klass, hklass⟩ := wordAt_of_le (show offset + 2 + 2 ≤ p.length by omega)
      obtain ⟨rdlength, hrdlength⟩ := wordAt_of_le (show offset + 8 + 2 ≤ p.length by omega)
      have hminus := minus_of_le (a := p.length) (b := offset + 10) (by omega)
      simp only [hshort, htype, hklass, hrdlength, hminus, if_false, Option.bind_some]
      by_cases hlong : p.length - (offset + 10) < rdlength.toNat
      · rw [if_pos hlong]
        exact .error ..
      rw [if_neg hlong]
      by_cases haddress : type = 1 ∧ klass = 1 ∧ rdlength = 4
      · have hfour : rdlength.toNat = 4 := congrArg UInt16.toNat haddress.2.2
        rw [if_pos haddress, copyAt, if_pos (by omega)]
        exact .ok ..
      · rw [if_neg haddress]
        exact ih (by omega)

/-- **The parser ends on any bytes**, with all its accesses in order. -/
lemma joshDnsParseAResponse_answered (p : List UInt8) (transactionId : UInt16)
    (buffer : Ipv4Address) : Answered buffer (joshDnsParseAResponse p transactionId buffer) := by
  rw [joshDnsParseAResponse]
  by_cases hshort : p.length < 12
  · rw [if_pos hshort]
    exact .error ..
  obtain ⟨id, hid⟩ := wordAt_of_le (show 0 + 2 ≤ p.length by omega)
  obtain ⟨flags, hflags⟩ := wordAt_of_le (show 2 + 2 ≤ p.length by omega)
  obtain ⟨questions, hquestions⟩ := wordAt_of_le (show 4 + 2 ≤ p.length by omega)
  obtain ⟨answers, hanswers⟩ := wordAt_of_le (show 6 + 2 ≤ p.length by omega)
  obtain ⟨r, hskip, hr⟩ := skipQuestions_within questions.toNat (show 12 ≤ p.length by omega)
  simp only [hshort, hid, hflags, hquestions, hanswers, hskip, if_false, Option.bind_eq_bind,
    Option.bind_some]
  split_ifs with hother hflag
  · exact .error ..
  · exact .error ..
  cases r with
  | error status => exact .error ..
  | ok offset => exact findAddress_answered (hr offset rfl)

/-! ### Well-formed responses -/

/-- A question. -/
structure DnsQuestion where
  name : List UInt8
  type : UInt16
  klass : UInt16
  wireName : WireName name

def DnsQuestion.encode (question : DnsQuestion) : List UInt8 :=
  question.name ++ (writeBe16 question.type ++ writeBe16 question.klass)

/-- A resource record. -/
structure DnsRecord where
  name : List UInt8
  type : UInt16
  klass : UInt16
  ttl : Fin 4 → UInt8
  rdata : List UInt8
  wireName : WireName name
  length_rdata : rdata.length < 2 ^ 16

namespace DnsRecord

variable (record : DnsRecord)

def encode : List UInt8 :=
  record.name ++ recordBody record.type record.klass record.ttl record.rdata

/-- The record is of type A and class IN, with four bytes of data. -/
def IsAddress : Prop := record.type = 1 ∧ record.klass = 1 ∧ record.rdata.length = 4

instance : Decidable record.IsAddress :=
  inferInstanceAs (Decidable (record.type = 1 ∧ record.klass = 1 ∧ record.rdata.length = 4))

/-- The data of an address record. -/
def address : Ipv4Address := fun i => record.rdata.getD i.val 0

end DnsRecord

/-- A response without error.  What follows the answers is not looked at. -/
structure DnsResponse where
  transactionId : UInt16
  flags : UInt16
  counts : Fin 4 → UInt8
  questions : List DnsQuestion
  answers : List DnsRecord
  trailing : List UInt8
  isResponse : IsResponse flags
  length_questions : questions.length < 2 ^ 16
  length_answers : answers.length < 2 ^ 16

namespace DnsResponse

variable (response : DnsResponse)

def encode : List UInt8 :=
  responseHeader response.transactionId response.flags (UInt16.ofNat response.questions.length)
      (UInt16.ofNat response.answers.length) response.counts ++
    (response.questions.flatMap DnsQuestion.encode ++
      (response.answers.flatMap DnsRecord.encode ++ response.trailing))

/-- The first address among the answers. -/
def firstAddress : Option Ipv4Address :=
  (response.answers.find? fun record => record.IsAddress).map DnsRecord.address

end DnsResponse

/-- **The questions are passed over.** -/
lemma skipQuestions_encode {questions : List DnsQuestion}
    (h : p.drop pos = questions.flatMap DnsQuestion.encode ++ rest) :
    skipQuestions p questions.length pos =
      some (.ok (pos + (questions.flatMap DnsQuestion.encode).length)) := by
  induction questions generalizing pos with
  | nil => rfl
  | cons question questions ih =>
    rw [flatMap_cons, DnsQuestion.encode, append_assoc, append_assoc] at h
    have hnext : p.drop (pos + (question.name.length + 4)) =
        questions.flatMap DnsQuestion.encode ++ rest := by
      rw [← drop_drop, h, ← append_assoc, drop_left' (by simp)]
    rw [length_cons, skipQuestions_question (question.wireName.skip h) h, ih hnext]
    congr 2
    simp only [flatMap_cons, DnsQuestion.encode, length_append, length_writeBe16]
    omega

/-- **The answers are looked at** up to the first address. -/
lemma findAddress_encode {answers : List DnsRecord}
    (h : p.drop pos = answers.flatMap DnsRecord.encode ++ rest) :
    findAddress p buffer answers.length pos =
      some (((answers.find? fun record => record.IsAddress).map DnsRecord.address).elim
        (.error .unsupported, buffer) fun address => (.ok (), address)) := by
  induction answers generalizing pos with
  | nil => rfl
  | cons record answers ih =>
    rw [flatMap_cons, DnsRecord.encode, append_assoc, append_assoc] at h
    have hnext : p.drop (pos + (record.name.length + (10 + record.rdata.length))) =
        answers.flatMap DnsRecord.encode ++ rest := by
      rw [← drop_drop, h, ← append_assoc,
        drop_left' (by rw [length_append, length_recordBody])]
    rw [length_cons, findAddress_record (record.wireName.skip h) record.length_rdata h]
    by_cases haddress : record.IsAddress
    · rw [find?_cons_of_pos (by simpa using haddress)]
      exact if_pos haddress
    · rw [find?_cons_of_neg (by simpa using haddress), ← ih hnext]
      exact if_neg haddress

/-- **The parser finds the first address** of a well-formed response. -/
lemma joshDnsParseAResponse_encode (response : DnsResponse) (buffer : Ipv4Address) :
    joshDnsParseAResponse response.encode response.transactionId buffer =
      some (response.firstAddress.elim (.error .unsupported, buffer)
        fun address => (.ok (), address)) := by
  have hquestions : response.encode.drop 12 = response.questions.flatMap DnsQuestion.encode ++
      (response.answers.flatMap DnsRecord.encode ++ response.trailing) :=
    drop_responseHeader ..
  have hanswers : response.encode.drop
      (12 + (response.questions.flatMap DnsQuestion.encode).length) =
        response.answers.flatMap DnsRecord.encode ++ response.trailing := by
    rw [← drop_drop, hquestions, drop_left' rfl]
  have hshape : response.encode = _ ++ _ := rfl
  rw [joshDnsParseAResponse_header response.isResponse hshape,
    UInt16.toNat_ofNat_of_lt' response.length_questions,
    UInt16.toNat_ofNat_of_lt' response.length_answers, skipQuestions_encode hquestions]
  exact findAddress_encode hanswers

/-! ### The parser -/

/-- **The parser of DNS responses.**  On any bytes it ends with every read below the length
and no difference that wraps, and without `JOSH_NET_OK` the address is left as it was.  On any
well-formed response it returns the data of the first answer of type A, class IN and four
bytes, and `JOSH_NET_ERR_UNSUPPORTED` just when there is none. -/
theorem dns_response_parsed :
    (∀ p transactionId address, ∃ status address',
      joshDnsParseAResponse p transactionId address = some (status, address') ∧
        (status ≠ .ok () → address' = address)) ∧
    ∀ (response : DnsResponse) (address : Ipv4Address),
      (∀ found, response.firstAddress = some found →
        joshDnsParseAResponse response.encode response.transactionId address =
          some (.ok (), found)) ∧
      ((∃ address', joshDnsParseAResponse response.encode response.transactionId address =
        some (.error .unsupported, address')) ↔
          ∀ record ∈ response.answers, ¬ record.IsAddress) := by
  refine ⟨joshDnsParseAResponse_answered, fun response address => ⟨fun found hfound => ?_, ?_⟩⟩
  · rw [joshDnsParseAResponse_encode, hfound]
    rfl
  · have hnone : response.firstAddress = none ↔
        ∀ record ∈ response.answers, ¬ record.IsAddress := by
      simp [DnsResponse.firstAddress]
    rw [← hnone, joshDnsParseAResponse_encode]
    cases response.firstAddress with
    | none => exact ⟨fun _ => rfl, fun _ => ⟨address, rfl⟩⟩
    | some found =>
      refine iff_of_false ?_ (Option.some_ne_none found)
      rintro ⟨address', h⟩
      cases h

end JoshOS.Net
