import ObsidianVPN.Lib.Buffer
import ObsidianVPN.Lib.Netip

/-!
# DNS messages

The split tunnel reads the DNS messages of the machine: `ParseDNSMessage` returns the name of the
first question and the addresses of a response. A name is a sequence of labels that may go on
elsewhere in the message; `parseDNSName` follows at most ten such pointers, so that it ends for every
message. All accesses are checked; an access out of range gives `none`.

* `nameLoop`, `parseDNSName`: the walk along a name; `parseQuestions`, `parseAnswers`,
  `parseDNSMessage`;
* `nameLoop_total`, `parseDNSMessage_total`: no access is out of range;
* `NameAt`, `QuestionsAt`, `AnswersAt`, `WellFormed`: what a message says, with pointers to any place;
* `nameLoop_of_nameAt`: the walk finds the labels, and the end of the name where it began;
* **`parseDNSMessage_correct`**: the parser is safe for every byte string and finds the name, the
  kind and the addresses of every well-formed message.
-/

namespace ObsidianVPN.Client

open ByteStr Buffer Netip

/-! ## The parser -/

/-- The labels of a name with dots between them. -/
def joinLabels (labels : List Bytes) : Bytes := [0x2e].intercalate labels

def maxJumps : ℕ := 10

/-- The loop of `parseDNSName`; the offset 0 behind the name is an error. -/
def nameLoop (data : Bytes) (curr jumps : ℕ) (jumped : Bool) (nextOffset : ℕ)
    (labels : List Bytes) : Option (Bytes × ℕ) :=
  if curr < data.length then do
    let length := (← data[curr]?).toNat
    if length = 0 then
      return (joinLabels labels, if jumped then nextOffset else curr + 1)
    else if length &&& 0xC0 = 0xC0 then
      if curr + 1 ≥ data.length then return ([], 0)
      else
        let nextOffset := if jumped then nextOffset else curr + 2
        let pointer := getBE (← readAt data curr 2) &&& 0x3FFF
        if pointer ≥ data.length then return ([], 0)
        else if jumps + 1 > maxJumps then return ([], 0)
        else nameLoop data pointer (jumps + 1) true nextOffset labels
    else if curr + 1 + length > data.length then return ([], 0)
    else
      let label ← readAt data (curr + 1) length
      nameLoop data (curr + 1 + length) jumps jumped nextOffset (labels ++ [label])
  else return (joinLabels labels, if jumped then nextOffset else curr)
termination_by (maxJumps - jumps, data.length - curr)

def parseDNSName (data : Bytes) (offset : ℕ) : Option (Bytes × ℕ) :=
  nameLoop data offset 0 false 0 []

/-- The loop over the questions, from question `q` on: the name of the first one and the offset of
the answers, or nothing if a question is cut off. -/
def parseQuestions (data : Bytes) (qdCount q offset : ℕ) (qname : Bytes) :
    Option (Option (Bytes × ℕ)) :=
  if q < qdCount then do
    let (name, nextOffset) ← parseDNSName data offset
    if nextOffset = 0 ∨ nextOffset + 4 > data.length then return none
    else parseQuestions data qdCount (q + 1) (nextOffset + 4) (if q = 0 then name else qname)
  else return some (qname, offset)
termination_by qdCount - q

/-- `net.IPv4` of four bytes in the form that `To4` gives. -/
def ipv4 (b : Bytes) : Option Bytes := Addr.to4 (Addr.v4InV6Prefix ++ b)

/-- The addresses with that of a record of type A added. -/
def addAddress (data : Bytes) (rtype rdLength offset : ℕ) (ips : List Bytes) :
    Option (List Bytes) :=
  if rtype = 1 ∧ rdLength = 4 then do
    match ipv4 (← readAt data offset 4) with
    | some ip4 => return ips ++ [ip4]
    | none => return ips
  else return ips

/-- The loop over the answers, from answer `a` on. -/
def parseAnswers (data : Bytes) (anCount a offset : ℕ) (ips : List Bytes) : Option (List Bytes) :=
  if a < anCount ∧ offset < data.length then do
    let (_, nextOffset) ← parseDNSName data offset
    if nextOffset = 0 ∨ nextOffset + 10 > data.length then return ips
    else
      let rtype := getBE (← readAt data nextOffset 2)
      let rdLength := getBE (← readAt data (nextOffset + 8) 2)
      let offset := nextOffset + 10
      if offset + rdLength > data.length then return ips
      else
        let ips ← addAddress data rtype rdLength offset ips
        parseAnswers data anCount (a + 1) (offset + rdLength) ips
  else return ips
termination_by anCount - a

/-- What `ParseDNSMessage` returns. -/
structure DnsInfo where
  qname : Bytes
  isResponse : Bool
  ips : List Bytes
  deriving DecidableEq

def parseDNSMessage (data : Bytes) : Option DnsInfo :=
  if data.length < 12 then return ⟨[], false, []⟩
  else do
    let flags := getBE (← readAt data 2 2)
    let isResponse := decide (flags &&& 0x8000 ≠ 0)
    let qdCount := getBE (← readAt data 4 2)
    let anCount := getBE (← readAt data 6 2)
    match ← parseQuestions data qdCount 0 12 [] with
    | none => return ⟨[], isResponse, []⟩
    | some (qname, offset) =>
      if !isResponse ∨ anCount = 0 then return ⟨qname, isResponse, []⟩
      else
        let ips ← parseAnswers data anCount 0 offset []
        return ⟨qname, isResponse, ips⟩

/-! ## Safety -/

section Safe

-- Induction over the calls of the loop: every pointer uses up a jump, every label a part of the
-- message.
theorem nameLoop_total (data : Bytes) (curr jumps : ℕ) (jumped : Bool) (nextOffset : ℕ)
    (labels : List Bytes) : ∃ r, nameLoop data curr jumps jumped nextOffset labels = some r := by
  rw [nameLoop]
  split
  · rename_i hcurr
    simp only [getElem?_of_lt hcurr, Option.bind_eq_bind, Option.bind_some]
    split
    · exact ⟨_, rfl⟩
    split
    · split
      · exact ⟨_, rfl⟩
      rename_i hnext
      simp only [readAt_of_le (show curr + 2 ≤ data.length by omega), Option.bind_some]
      split
      · exact ⟨_, rfl⟩
      split
      · exact ⟨_, rfl⟩
      · exact nameLoop_total ..
    · split
      · exact ⟨_, rfl⟩
      rename_i hlabel
      rw [readAt_of_le (not_lt.mp hlabel), Option.bind_some]
      exact nameLoop_total ..
  · exact ⟨_, rfl⟩
termination_by (maxJumps - jumps, data.length - curr)

theorem parseQuestions_total (data : Bytes) (qdCount q offset : ℕ) (qname : Bytes) :
    ∃ r, parseQuestions data qdCount q offset qname = some r := by
  rw [parseQuestions]
  split
  · obtain ⟨⟨name, nextOffset⟩, hname⟩ := nameLoop_total data offset 0 false 0 []
    simp only [parseDNSName, hname, Option.bind_eq_bind, Option.bind_some]
    split
    · exact ⟨_, rfl⟩
    · exact parseQuestions_total ..
  · exact ⟨_, rfl⟩
termination_by qdCount - q

theorem ipv4_eq {b : Bytes} (h : b.length = 4) : ipv4 b = some b := by
  have hlen : (Addr.v4InV6Prefix ++ b).length = 16 := by
    rw [List.length_append, h]
    rfl
  have htake : (Addr.v4InV6Prefix ++ b).take 12 = Addr.v4InV6Prefix := List.take_left' rfl
  have hdrop : (Addr.v4InV6Prefix ++ b).drop 12 = b := List.drop_left' rfl
  rw [ipv4, Addr.to4, if_neg (by omega), if_pos ⟨hlen, htake⟩, hdrop]

theorem addAddress_eq {data : Bytes} {rtype rdLength offset : ℕ}
    (h : offset + rdLength ≤ data.length) (ips : List Bytes) :
    addAddress data rtype rdLength offset ips
      = some (ips ++ if rtype = 1 ∧ rdLength = 4 then [slice data offset rdLength] else []) := by
  unfold addAddress
  split
  · rename_i hA
    obtain ⟨_, rfl⟩ := hA
    simp only [readAt_of_le h, ipv4_eq (length_slice h), Option.bind_eq_bind, Option.bind_some]
    rfl
  · rw [List.append_nil]
    rfl

theorem parseAnswers_total (data : Bytes) (anCount a offset : ℕ) (ips : List Bytes) :
    ∃ r, parseAnswers data anCount a offset ips = some r := by
  rw [parseAnswers]
  split
  · obtain ⟨⟨name, nextOffset⟩, hname⟩ := nameLoop_total data offset 0 false 0 []
    simp only [parseDNSName, hname, Option.bind_eq_bind, Option.bind_some]
    split
    · exact ⟨_, rfl⟩
    rename_i hfix
    simp only [readAt_of_le (show nextOffset + 2 ≤ data.length by omega),
      readAt_of_le (show nextOffset + 8 + 2 ≤ data.length by omega), Option.bind_some]
    split
    · exact ⟨_, rfl⟩
    rename_i hdata
    rw [addAddress_eq (not_lt.mp hdata), Option.bind_some]
    exact parseAnswers_total ..
  · exact ⟨_, rfl⟩
termination_by anCount - a

/-- **No access is out of range**, whatever the pointers do. -/
theorem parseDNSMessage_total (data : Bytes) : ∃ info, parseDNSMessage data = some info := by
  unfold parseDNSMessage
  split
  · exact ⟨_, rfl⟩
  rename_i hlen
  obtain ⟨res, hres⟩ := parseQuestions_total data (getBE (slice data 4 2)) 0 12 []
  simp only [readAt_of_le (show 2 + 2 ≤ data.length by omega),
    readAt_of_le (show 4 + 2 ≤ data.length by omega),
    readAt_of_le (show 6 + 2 ≤ data.length by omega), Option.bind_eq_bind, Option.bind_some, hres]
  cases res with
  | none => exact ⟨_, rfl⟩
  | some res =>
    obtain ⟨ips, hips⟩ := parseAnswers_total data (getBE (slice data 6 2)) 0 res.2 []
    simp only [hips, Option.bind_some]
    split
    · exact ⟨_, rfl⟩
    · exact ⟨_, rfl⟩

end Safe

/-! ## Well-formed messages -/

/-- A name at `off`: its labels, where the message goes on behind it, and the number of pointers. -/
inductive NameAt (data : Bytes) : ℕ → List Bytes → ℕ → ℕ → Prop where
  | root {off : ℕ} (hbyte : data[off]? = some 0) : NameAt data off [] (off + 1) 0
  | label {off next pointers : ℕ} {label : Bytes} {labels : List Bytes} (hpos : label ≠ [])
      (hlen : label.length ≤ 63) (hbyte : data[off]? = some (UInt8.ofNat label.length))
      (hlabel : readAt data (off + 1) label.length = some label)
      (hrest : NameAt data (off + 1 + label.length) labels next pointers) :
      NameAt data off (label :: labels) next pointers
  | pointer {off target next pointers : ℕ} {labels : List Bytes} (htarget : target < 2 ^ 14)
      (hbytes : readAt data off 2 = some (putBE 2 (0xC000 + target)))
      (hrest : NameAt data target labels next pointers) :
      NameAt data off labels (off + 2) (pointers + 1)

/-- The questions from `off` on, by their names, and where they end. Each name uses at most ten
pointers. -/
inductive QuestionsAt (data : Bytes) : ℕ → List (List Bytes) → ℕ → Prop where
  | nil {off : ℕ} : QuestionsAt data off [] off
  | cons {off next stop pointers : ℕ} {name : List Bytes} {names : List (List Bytes)}
      (hname : NameAt data off name next pointers) (hpointers : pointers ≤ maxJumps)
      (hfix : next + 4 ≤ data.length) (hrest : QuestionsAt data (next + 4) names stop) :
      QuestionsAt data off (name :: names) stop

/-- A resource record: its type and its data. -/
structure Record where
  rtype : ℕ
  rdata : Bytes

/-- The records from `off` on. -/
inductive AnswersAt (data : Bytes) : ℕ → List Record → ℕ → Prop where
  | nil {off : ℕ} : AnswersAt data off [] off
  | cons {off next stop pointers : ℕ} {name : List Bytes} {record : Record} {records : List Record}
      (hname : NameAt data off name next pointers) (hpointers : pointers ≤ maxJumps)
      (htype : (readAt data next 2).map getBE = some record.rtype)
      (hlength : (readAt data (next + 8) 2).map getBE = some record.rdata.length)
      (hdata : readAt data (next + 10) record.rdata.length = some record.rdata)
      (hrest : AnswersAt data (next + 10 + record.rdata.length) records stop) :
      AnswersAt data off (record :: records) stop

/-- A message with the given names in its questions and the given answers. Its other sections are
not restricted. -/
structure WellFormed (data : Bytes) (names : List (List Bytes)) (answers : List Record) : Prop where
  header : 12 ≤ data.length
  qdCount : getBE (slice data 4 2) = names.length
  anCount : getBE (slice data 6 2) = answers.length
  sections : ∃ mid stop, QuestionsAt data 12 names mid ∧ AnswersAt data mid answers stop

/-- The bit QR of the header. -/
def qr (data : Bytes) : Bool := (data.getD 2 0).toNat.testBit 7

/-- The address of a record of type A with four bytes. -/
def Record.address (r : Record) : Option Bytes :=
  if r.rtype = 1 ∧ r.rdata.length = 4 then some r.rdata else none

/-! ## Parsing well-formed messages -/

section Correct

variable {data : Bytes} {off next pointers : ℕ} {labels : List Bytes}

theorem NameAt.lt_length (h : NameAt data off labels next pointers) : off < data.length := by
  cases h with
  | root hbyte => exact (List.getElem?_eq_some_iff.mp hbyte).1
  | label _ _ hbyte _ _ => exact (List.getElem?_eq_some_iff.mp hbyte).1
  | pointer _ hbytes _ =>
    have := (readAt_eq_some_iff.mp hbytes).1
    omega

theorem NameAt.next_pos (h : NameAt data off labels next pointers) : 0 < next := by
  induction h with
  | root => omega
  | label _ _ _ _ _ ih => exact ih
  | pointer => omega

/-- The two top bits of a byte mark a pointer. -/
theorem and_mark_iff : ∀ n < 256, n &&& 0xC0 = 0xC0 ↔ 0xC0 ≤ n := by decide +kernel

theorem pointer_target {target : ℕ} (h : target < 2 ^ 14) :
    (0xC000 + target) &&& 0x3FFF = target := by
  rw [show 0x3FFF = 2 ^ 14 - 1 from rfl, Nat.and_two_pow_sub_one_eq_mod]
  omega

theorem pointer_byte {target : ℕ} (h : target < 2 ^ 14)
    (hbytes : readAt data off 2 = some (putBE 2 (0xC000 + target))) :
    ∃ x, data[off]? = some x ∧ x.toNat = 0xC0 + target / 256 := by
  obtain ⟨hlen, hslice⟩ := readAt_eq_some_iff.mp hbytes
  have hfirst : data.getD off 0 = UInt8.ofNat ((0xC000 + target) / 256) := by
    rw [← Nat.add_zero off, ← getD_slice data (n := 2) (by decide), hslice]
    rfl
  refine ⟨data.getD off 0, getElem?_of_lt (by omega), ?_⟩
  rw [hfirst, UInt8.toNat_ofNat']
  omega

-- Induction over the name. The offset behind it is fixed by the first pointer, so that it does not
-- depend on what the loop finds there.
theorem nameLoop_of_nameAt (h : NameAt data off labels next pointers) {jumps : ℕ}
    (hjumps : pointers + jumps ≤ maxJumps) (jumped : Bool) (nextOffset : ℕ) (acc : List Bytes) :
    nameLoop data off jumps jumped nextOffset acc
      = some (joinLabels (acc ++ labels), if jumped then nextOffset else next) := by
  induction h generalizing jumps jumped nextOffset acc with
  | root hbyte =>
    have hoff := (List.getElem?_eq_some_iff.mp hbyte).1
    rw [nameLoop, if_pos hoff, hbyte, List.append_nil]
    rfl
  | @label off next pointers label labels hpos hlen hbyte hlabel hrest ih =>
    have hoff := (List.getElem?_eq_some_iff.mp hbyte).1
    have hend := (readAt_eq_some_iff.mp hlabel).1
    have hlength : (UInt8.ofNat label.length).toNat = label.length := by
      rw [UInt8.toNat_ofNat', Nat.mod_eq_of_lt (by omega)]
    have hne : label.length ≠ 0 := mt List.eq_nil_of_length_eq_zero hpos
    have hmark : ¬label.length &&& 0xC0 = 0xC0 := by
      rw [and_mark_iff _ (by omega)]
      omega
    rw [nameLoop, if_pos hoff]
    simp only [hbyte, hlength, Option.bind_eq_bind, Option.bind_some]
    rw [if_neg hne, if_neg hmark, if_neg (by omega), hlabel, Option.bind_some, ih hjumps,
      List.append_assoc]
    rfl
  | @pointer off target next pointers labels htarget hbytes hrest ih =>
    obtain ⟨x, hbyte, hx⟩ := pointer_byte htarget hbytes
    have hoff := (List.getElem?_eq_some_iff.mp hbyte).1
    have hend := (readAt_eq_some_iff.mp hbytes).1
    have hin := hrest.lt_length
    have hmark : x.toNat &&& 0xC0 = 0xC0 := by
      rw [and_mark_iff _ x.toNat_lt]
      omega
    rw [nameLoop, if_pos hoff]
    simp only [hbyte, hbytes, Option.bind_eq_bind, Option.bind_some,
      getBE_putBE_of_lt (show 0xC000 + target < 256 ^ 2 by omega), pointer_target htarget]
    rw [if_neg (by omega), if_pos hmark, if_neg (by omega), if_neg (by omega), if_neg (by omega),
      ih (by omega)]
    rfl

theorem parseDNSName_of_nameAt (h : NameAt data off labels next pointers)
    (hpointers : pointers ≤ maxJumps) :
    parseDNSName data off = some (joinLabels labels, next) :=
  nameLoop_of_nameAt h hpointers false 0 []

theorem parseQuestions_of_questionsAt {names : List (List Bytes)} {mid : ℕ}
    (h : QuestionsAt data off names mid) (q : ℕ) (qname : Bytes) :
    parseQuestions data (q + names.length) q off qname
      = some (some (if q = 0 then (names.head?.map joinLabels).getD qname else qname, mid)) := by
  induction h generalizing q qname with
  | nil =>
    rw [parseQuestions, if_neg (by simp)]
    simp
  | @cons off next stop pointers name names hname hpointers hfix hrest ih =>
    have hpos := hname.next_pos
    have hnext := ih (q + 1) (if q = 0 then joinLabels name else qname)
    rw [if_neg (Nat.succ_ne_zero q), Nat.add_right_comm] at hnext
    rw [parseQuestions, if_pos (by simp), parseDNSName_of_nameAt hname hpointers]
    simp only [Option.bind_eq_bind, Option.bind_some]
    rw [if_neg (by omega), List.length_cons, ← Nat.add_assoc, hnext]
    rfl

theorem parseAnswers_of_answersAt {records : List Record} {stop : ℕ}
    (h : AnswersAt data off records stop) (a : ℕ) (ips : List Bytes) :
    parseAnswers data (a + records.length) a off ips
      = some (ips ++ records.filterMap Record.address) := by
  induction h generalizing a ips with
  | nil =>
    rw [parseAnswers, if_neg (by simp)]
    simp
  | @cons off next stop pointers name record records hname hpointers htype hlength hdata hrest ih =>
    have hpos := hname.next_pos
    have hoff := hname.lt_length
    obtain ⟨hend, hslice⟩ := readAt_eq_some_iff.mp hdata
    have hnext := ih (a + 1)
      (ips ++ if record.rtype = 1 ∧ record.rdata.length = 4 then [record.rdata] else [])
    rw [Nat.add_right_comm] at hnext
    have hrtype : getBE (slice data next 2) = record.rtype := by
      rwa [readAt_of_le (by omega), Option.map_some, Option.some.injEq] at htype
    have hrdlength : getBE (slice data (next + 8) 2) = record.rdata.length := by
      rwa [readAt_of_le (by omega), Option.map_some, Option.some.injEq] at hlength
    rw [parseAnswers, if_pos ⟨by simp, hoff⟩, parseDNSName_of_nameAt hname hpointers]
    simp only [Option.bind_eq_bind, Option.bind_some]
    rw [if_neg (by omega)]
    simp only [readAt_of_le (show next + 2 ≤ data.length by omega),
      readAt_of_le (show next + 8 + 2 ≤ data.length by omega), Option.bind_some, hrtype, hrdlength]
    rw [if_neg (by omega), addAddress_eq hend, Option.bind_some, hslice, List.length_cons,
      ← Nat.add_assoc, hnext, List.append_assoc, List.filterMap_cons, Record.address]
    split <;> rfl

theorem isResponse_eq (h : 12 ≤ data.length) :
    decide (getBE (slice data 2 2) &&& 0x8000 ≠ 0) = qr data := by
  obtain ⟨hi, lo, hbytes, hhi⟩ : ∃ hi lo, slice data 2 2 = [hi, lo] ∧ data.getD 2 0 = hi := by
    match data, h with
    | _ :: _ :: hi :: lo :: _, _ => exact ⟨hi, lo, rfl, rfl⟩
  have hval : getBE (slice data 2 2) = 2 ^ 8 * hi.toNat + lo.toNat := by
    simp [hbytes, getBE, mul_comm]
  have hbit : (getBE (slice data 2 2)).testBit 15 = hi.toNat.testBit 7 := by
    rw [hval, Nat.testBit_two_pow_mul_add _ lo.toNat_lt]
    rfl
  rw [qr, hhi, ← hbit, show 0x8000 = 2 ^ 15 from rfl, Nat.and_two_pow]
  cases (getBE (slice data 2 2)).testBit 15 <;> rfl

end Correct

/-- **The parser is safe for every byte string, and faithful for every well-formed message.** -/
theorem parseDNSMessage_correct :
    (∀ data, ∃ info, parseDNSMessage data = some info) ∧
    ∀ data names answers, WellFormed data names answers →
      parseDNSMessage data = some
        { qname := (names.head?.map joinLabels).getD []
          isResponse := qr data
          ips := if qr data then answers.filterMap Record.address else [] } := by
  refine ⟨parseDNSMessage_total, fun data names answers h => ?_⟩
  obtain ⟨mid, stop, hquestions, hanswers⟩ := h.sections
  have hlen := h.header
  have hq := parseQuestions_of_questionsAt hquestions 0 []
  have ha := parseAnswers_of_answersAt hanswers 0 []
  rw [Nat.zero_add] at hq ha
  rw [parseDNSMessage, if_neg (by omega)]
  simp only [readAt_of_le (show 2 + 2 ≤ data.length by omega),
    readAt_of_le (show 4 + 2 ≤ data.length by omega),
    readAt_of_le (show 6 + 2 ≤ data.length by omega), Option.bind_eq_bind, Option.bind_some,
    isResponse_eq hlen, h.qdCount, h.anCount, hq, ha, if_true]
  cases qr data with
  | false => rfl
  | true =>
    cases answers with
    | nil => rfl
    | cons => rfl

/-- A response with the question `a.bc`, an answer of type CNAME and one of type A, both for the name
to which a pointer leads. -/
def sampleResponse : Bytes :=
  [0x12, 0x34, 0x81, 0x80, 0, 1, 0, 2, 0, 0, 0, 0] ++
    ([1, 0x61, 2, 0x62, 0x63, 0, 0, 1, 0, 1] ++
      ([0xC0, 12, 0, 5, 0, 1, 0, 0, 0, 60, 0, 2, 0xC0, 14] ++
        [0xC0, 12, 0, 1, 0, 1, 0, 0, 0, 60, 0, 4, 192, 0, 2, 1]))

theorem wellFormed_sampleResponse :
    WellFormed sampleResponse [[[0x61], [0x62, 0x63]]] [⟨5, [0xC0, 14]⟩, ⟨1, [192, 0, 2, 1]⟩] := by
  have hname : NameAt sampleResponse 12 [[0x61], [0x62, 0x63]] 18 0 :=
    .label (by decide) (by decide) rfl rfl (.label (by decide) (by decide) rfl rfl (.root rfl))
  have hpointer : ∀ off, readAt sampleResponse off 2 = some (putBE 2 (0xC000 + 12)) →
      NameAt sampleResponse off [[0x61], [0x62, 0x63]] (off + 2) 1 :=
    fun off h => .pointer (by decide) h hname
  refine ⟨by decide, rfl, rfl, 22, 52, .cons hname (by decide) (by decide) .nil, ?_⟩
  exact .cons (hpointer 22 rfl) (by decide) rfl rfl rfl
    (.cons (hpointer 36 rfl) (by decide) rfl rfl rfl .nil)

theorem parseDNSMessage_sampleResponse :
    WellFormed sampleResponse [[[0x61], [0x62, 0x63]]] [⟨5, [0xC0, 14]⟩, ⟨1, [192, 0, 2, 1]⟩] ∧
      parseDNSMessage sampleResponse = some ⟨[0x61, 0x2e, 0x62, 0x63], true, [[192, 0, 2, 1]]⟩ :=
  ⟨wellFormed_sampleResponse, parseDNSMessage_correct.2 _ _ _ wellFormed_sampleResponse⟩

end ObsidianVPN.Client
