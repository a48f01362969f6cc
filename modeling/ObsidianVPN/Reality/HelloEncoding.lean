import ObsidianVPN.Lib.Buffer
import ObsidianVPN.Reality.ClientHello

/-!
# Encoded ClientHello messages

`ParseTLSClientHello` keeps its offsets by hand. Here every access is checked: an access out of range
gives `none`, which does not happen for any input. A ClientHello is encoded with the lengths of its
parts in front of them; the parser finds its session id and its first host name again.

* `hostNameChecked`, `parseSNIExtensionChecked`, `parseTLSClientHelloChecked`: the parser with its
  accesses checked; `parseTLSClientHelloChecked_eq`: none of them fails;
* `parseTLSClientHello_isInfix`: what is returned is a part of the first record;
* `ServerName`, `Extension`, `HelloMessage`, `HelloRecord`: the encoder;
* `hostName_encode`, `parseSNIExtension_encode`, `parseHandshake_encode`: the loops and the fields;
* **`parseTLSClientHello_correct`**: both directions for every record and every byte string.
-/

namespace ObsidianVPN.Reality

open ByteStr Buffer

/-! ## Checked accesses -/

/-- `hostName` with checked accesses. -/
def hostNameChecked (data : Bytes) (listEnd subOffset : ℕ) : Option (Option Bytes) :=
  if subOffset + 3 ≤ listEnd then do
    let nameType ← data[subOffset]?
    let nameLen := getBE (← readAt data (subOffset + 1) 2)
    if subOffset + 3 + nameLen ≤ data.length then
      if nameType = 0x00 then
        let name ← readAt data (subOffset + 3) nameLen
        return some name
      else hostNameChecked data listEnd (subOffset + 3 + nameLen)
    else return none
  else return none
termination_by listEnd - subOffset

def serverNameChecked (data : Bytes) : Option (Option Bytes) :=
  if 2 ≤ data.length then do
    let listLen := getBE (← readAt data 0 2)
    if data.length ≥ 2 + listLen then hostNameChecked data (2 + listLen) 2 else return none
  else return none

/-- `parseSNIExtension` with checked accesses. -/
def parseSNIExtensionChecked (extBytes : Bytes) (extOffset : ℕ) : Option Bytes :=
  if extOffset + 4 ≤ extBytes.length then do
    let extType := getBE (← readAt extBytes extOffset 2)
    let extLen := getBE (← readAt extBytes (extOffset + 2) 2)
    if extOffset + 4 + extLen > extBytes.length then return []
    else if extType = 0x0000 then
      let data ← readAt extBytes (extOffset + 4) extLen
      match ← serverNameChecked data with
      | some name => return name
      | none => parseSNIExtensionChecked extBytes (extOffset + 4 + extLen)
    else parseSNIExtensionChecked extBytes (extOffset + 4 + extLen)
  else return []
termination_by extBytes.length - extOffset

def parseClientHelloNameChecked (hs : Bytes) (offset : ℕ) : Option Bytes :=
  if hs.length < offset + 2 then return []
  else do
    let offset := offset + 2 + getBE (← readAt hs offset 2)
    if hs.length < offset then return []
    else if hs.length < offset + 1 then return []
    else
      let offset := offset + 1 + (← hs[offset]?).toNat
      if hs.length < offset then return []
      else if hs.length < offset + 2 then return []
      else
        let extTotalLen := getBE (← readAt hs offset 2)
        if hs.length < offset + 2 + extTotalLen then return []
        else parseSNIExtensionChecked (← readAt hs (offset + 2) extTotalLen) 0

def parseHandshakeChecked (hs : Bytes) : Option (Except HelloError ClientHello) :=
  if hs.length < 4 then return .error .notClientHello
  else do
    if (← hs[0]?) ≠ 0x01 then return .error .notClientHello
    else
      let hsLen := getBE (← readAt hs 1 3)
      if hs.length < 4 + hsLen then return .error .truncatedRecord
      else if hs.length < 4 + 2 + 32 + 1 then return .error .truncatedRecord
      else
        let sessionIDLen := (← hs[38]?).toNat
        if hs.length < 39 + sessionIDLen then return .error .truncatedRecord
        else
          let sessionID ← readAt hs 39 sessionIDLen
          let sni ← parseClientHelloNameChecked hs (39 + sessionIDLen)
          return .ok ⟨sessionID, sni⟩

/-- `ParseTLSClientHello` with checked accesses; `none` is an access out of range. -/
def parseTLSClientHelloChecked (record : Bytes) : Option (Except HelloError ClientHello) :=
  if record.length < 5 then return .error .truncatedRecord
  else do
    if (← record[0]?) ≠ 0x16 then return .error .notTLS
    else
      let major ← record[1]?
      let minor ← record[2]?
      if major ≠ 0x03 ∨ minor < 0x01 ∨ minor > 0x03 then return .error .notTLS
      else
        let recordLen := getBE (← readAt record 3 2)
        if record.length < 5 + recordLen then return .error .truncatedRecord
        else parseHandshakeChecked (← readAt record 5 recordLen)

section Checked

/-- One pass of the loop reads the type and the length of a name. -/
theorem hostNameChecked_of_le {data : Bytes} {listEnd off : ℕ} (h : listEnd ≤ data.length)
    (hoff : off + 3 ≤ listEnd) :
    hostNameChecked data listEnd off =
      if off + 3 + getBE (slice data (off + 1) 2) ≤ data.length then
        if data.getD off 0 = 0x00 then
          (readAt data (off + 3) (getBE (slice data (off + 1) 2))).bind fun name => some (some name)
        else hostNameChecked data listEnd (off + 3 + getBE (slice data (off + 1) 2))
      else some none := by
  rw [hostNameChecked, if_pos hoff]
  simp only [getElem?_of_lt (show off < data.length by omega),
    readAt_of_le (show off + 1 + 2 ≤ data.length by omega), Option.bind_eq_bind, Option.bind_some]
  rfl

theorem hostNameChecked_eq (data : Bytes) (listEnd subOffset : ℕ) (h : listEnd ≤ data.length) :
    hostNameChecked data listEnd subOffset = some (hostName data listEnd subOffset) := by
  fun_induction hostName data listEnd subOffset with
  | case1 off hoff nameType nameLen hlen htype =>
    rw [hostNameChecked_of_le h hoff, if_pos hlen, if_pos htype, readAt_of_le hlen, Option.bind_some]
  | case2 off hoff nameType nameLen hlen htype ih =>
    rw [hostNameChecked_of_le h hoff, if_pos hlen, if_neg htype, ih]
  | case3 off hoff nameLen hlen => rw [hostNameChecked_of_le h hoff, if_neg hlen]
  | case4 off hoff => rw [hostNameChecked, if_neg hoff]; rfl

theorem serverNameChecked_eq (data : Bytes) :
    serverNameChecked data = some (serverName data) := by
  unfold serverNameChecked serverName
  split
  · rename_i hlen
    simp only [readAt_of_le (show 0 + 2 ≤ data.length by omega), Option.bind_eq_bind,
      Option.bind_some]
    change (if data.length ≥ 2 + getBE (data.take 2) then _ else _) = _
    split
    · rename_i hlist
      exact hostNameChecked_eq _ _ _ hlist
    · rfl
  · rfl

theorem parseSNIExtensionChecked_eq (extBytes : Bytes) (extOffset : ℕ) :
    parseSNIExtensionChecked extBytes extOffset = some (parseSNIExtension extBytes extOffset) := by
  induction hn : extBytes.length - extOffset using Nat.strong_induction_on generalizing extOffset with
  | _ n ih =>
    unfold parseSNIExtensionChecked parseSNIExtension
    split
    · rename_i hoff
      simp only [readAt_of_le (show extOffset + 2 ≤ extBytes.length by omega),
        readAt_of_le (show extOffset + 2 + 2 ≤ extBytes.length by omega), Option.bind_eq_bind,
        Option.bind_some]
      generalize getBE (slice extBytes (extOffset + 2) 2) = extLen
      split
      · rfl
      · rename_i hlen
        have hnext := ih _ (by omega) (extOffset + 4 + extLen) rfl
        split
        · rw [readAt_of_le (not_lt.mp hlen), Option.bind_some, serverNameChecked_eq, Option.bind_some]
          cases serverName (slice extBytes (extOffset + 4) extLen) with
          | some name => rfl
          | none => exact hnext
        · exact hnext
    · rfl

theorem parseClientHelloNameChecked_eq (hs : Bytes) (offset : ℕ) :
    parseClientHelloNameChecked hs offset = some (parseClientHelloName hs offset) := by
  unfold parseClientHelloNameChecked parseClientHelloName
  split
  · rfl
  rename_i hsuites
  simp only [readAt_of_le (not_lt.mp hsuites), Option.bind_eq_bind, Option.bind_some]
  generalize offset + 2 + getBE (slice hs offset 2) = offset
  split
  · rfl
  split
  · rfl
  rename_i hcomp
  simp only [getElem?_of_lt (show offset < hs.length by omega), Option.bind_some]
  generalize offset + 1 + (hs.getD offset 0).toNat = offset
  split
  · rfl
  split
  · rfl
  rename_i hext
  simp only [readAt_of_le (not_lt.mp hext), Option.bind_some]
  split
  · rfl
  rename_i htotal
  rw [readAt_of_le (not_lt.mp htotal), Option.bind_some, parseSNIExtensionChecked_eq]

theorem parseHandshakeChecked_eq (hs : Bytes) :
    parseHandshakeChecked hs = some (parseHandshake hs) := by
  unfold parseHandshakeChecked parseHandshake
  split
  · rfl
  rename_i hlen
  simp only [getElem?_of_lt (show 0 < hs.length by omega),
    readAt_of_le (show 1 + 3 ≤ hs.length by omega), Option.bind_eq_bind, Option.bind_some]
  split
  · rfl
  split
  · rfl
  split
  · rfl
  rename_i hfix
  simp only [getElem?_of_lt (show 38 < hs.length by omega), Option.bind_some]
  split
  · rfl
  rename_i hid
  rw [readAt_of_le (not_lt.mp hid), Option.bind_some, parseClientHelloNameChecked_eq,
    Option.bind_some]
  rfl

/-- **No access of the parser is out of range.** -/
theorem parseTLSClientHelloChecked_eq (record : Bytes) :
    parseTLSClientHelloChecked record = some (parseTLSClientHello record) := by
  unfold parseTLSClientHelloChecked parseTLSClientHello
  split
  · rfl
  rename_i hlen
  simp only [getElem?_of_lt (show 0 < record.length by omega),
    getElem?_of_lt (show 1 < record.length by omega),
    getElem?_of_lt (show 2 < record.length by omega),
    readAt_of_le (show 3 + 2 ≤ record.length by omega), Option.bind_eq_bind, Option.bind_some]
  have hrecord : isTLSRecord record = true ↔ ¬record.getD 0 0 ≠ 0x16 ∧
      ¬(record.getD 1 0 ≠ 0x03 ∨ record.getD 2 0 < 0x01 ∨ record.getD 2 0 > 0x03) := by
    simp only [isTLSRecord, decide_eq_true_iff, not_or, not_not, UInt8.not_lt, gt_iff_lt]
  split
  · rename_i htype
    rw [if_pos fun h => (hrecord.mp h).1 htype]
    rfl
  split
  · rename_i hversion
    rw [if_pos fun h => (hrecord.mp h).2 hversion]
    rfl
  rename_i htype hversion
  rw [if_neg (not_not.mpr (hrecord.mpr ⟨htype, hversion⟩))]
  rw [← recordLength]
  split
  · rfl
  rename_i hbody
  rw [readAt_of_le (not_lt.mp hbody)]
  exact parseHandshakeChecked_eq _

end Checked

/-! ## Parts of the record -/

section Parts

theorem hostName_isInfix {data name : Bytes} {listEnd subOffset : ℕ}
    (h : hostName data listEnd subOffset = some name) : name <:+: data := by
  fun_induction hostName data listEnd subOffset with
  | case1 => exact Option.some.inj h ▸ slice_isInfix _ _ _
  | case2 _ _ _ _ _ _ ih => exact ih h
  | case3 => cases h
  | case4 => cases h

theorem serverName_isInfix {data name : Bytes} (h : serverName data = some name) :
    name <:+: data := by
  simp only [serverName] at h
  split_ifs at h
  exact hostName_isInfix h

theorem parseSNIExtension_isInfix (extBytes : Bytes) (extOffset : ℕ) :
    parseSNIExtension extBytes extOffset <:+: extBytes := by
  fun_induction parseSNIExtension extBytes extOffset with
  | case1 => exact List.nil_infix
  | case2 off hoff extType extLen hlen data name hname =>
    split at hname
    · exact (serverName_isInfix hname).trans (slice_isInfix _ _ _)
    · cases hname
  | case3 _ _ _ _ _ _ _ ih => exact ih
  | case4 => exact List.nil_infix

theorem parseClientHelloName_isInfix (hs : Bytes) (offset : ℕ) :
    parseClientHelloName hs offset <:+: hs := by
  have hnil : [] <:+: hs := List.nil_infix
  simp only [parseClientHelloName]
  split_ifs <;> first
    | exact hnil
    | exact (parseSNIExtension_isInfix _ _).trans (slice_isInfix _ _ _)

theorem parseHandshake_isInfix {hs : Bytes} {hello : ClientHello}
    (h : parseHandshake hs = .ok hello) : hello.sessionID <:+: hs ∧ hello.sni <:+: hs := by
  simp only [parseHandshake] at h
  split_ifs at h
  cases h
  exact ⟨slice_isInfix _ _ _, parseClientHelloName_isInfix _ _⟩

/-- **What is returned is a part of the first record.** -/
theorem parseTLSClientHello_isInfix {record : Bytes} {hello : ClientHello}
    (h : parseTLSClientHello record = .ok hello) :
    hello.sessionID <:+: record.take (5 + recordLength record) ∧
      hello.sni <:+: record.take (5 + recordLength record) := by
  unfold parseTLSClientHello at h
  split_ifs at h
  have hpart : slice record 5 (recordLength record)
      <:+: record.take (5 + recordLength record) := by
    have hdrop : (record.take (5 + recordLength record)).drop 5
        = slice record 5 (recordLength record) := by
      rw [slice, List.drop_take, Nat.add_sub_cancel_left]
    exact hdrop ▸ (List.drop_suffix _ _).isInfix
  obtain ⟨hid, hsni⟩ := parseHandshake_isInfix h
  exact ⟨hid.trans hpart, hsni.trans hpart⟩

end Parts

/-! ## The encoder -/

/-- An entry of a server name list; the type 0 is `host_name`. -/
structure ServerName where
  nameType : UInt8
  name : Bytes
  fits : name.length < 256 ^ 2

namespace ServerName

def encode (n : ServerName) : Bytes := n.nameType :: (putBE 2 n.name.length ++ n.name)

/-- The first `host_name` of a list. -/
def first (names : List ServerName) : Option Bytes :=
  (names.find? fun n => n.nameType = 0x00).map name

theorem first_cons (n : ServerName) (names : List ServerName) :
    first (n :: names) = if n.nameType = 0x00 then some n.name else first names := by
  by_cases h : n.nameType = 0x00 <;> simp [first, h]

theorem length_encode (n : ServerName) : n.encode.length = 3 + n.name.length := by
  simp only [encode, List.length_cons, List.length_append, length_putBE]
  omega

end ServerName

/-- An extension: a list of server names, or any other type with any data. -/
inductive Extension where
  | serverName (names : List ServerName)
      (fits : 2 + (names.flatMap ServerName.encode).length < 256 ^ 2)
  | other (extType : UInt16) (data : Bytes) (ne : extType ≠ 0x0000) (fits : data.length < 256 ^ 2)

namespace Extension

def extType : Extension → UInt16
  | serverName _ _ => 0x0000
  | other extType _ _ _ => extType

def data : Extension → Bytes
  | serverName names _ =>
    putBE 2 (names.flatMap ServerName.encode).length ++ names.flatMap ServerName.encode
  | other _ data _ _ => data

def encode (e : Extension) : Bytes :=
  putBE 2 e.extType.toNat ++ (putBE 2 e.data.length ++ e.data)

def hostName : Extension → Option Bytes
  | serverName names _ => ServerName.first names
  | other _ _ _ _ => none

theorem length_encode (e : Extension) : e.encode.length = 4 + e.data.length := by
  simp only [encode, List.length_append, length_putBE]
  omega

theorem length_data_lt : ∀ e : Extension, e.data.length < 256 ^ 2
  | serverName names fits => by rwa [data, List.length_append, length_putBE]
  | other _ _ _ fits => fits

end Extension

/-- A ClientHello; the block of extensions may be missing. -/
structure HelloMessage where
  version : Bytes
  random : Bytes
  sessionID : Bytes
  cipherSuites : List UInt16
  compressionMethods : Bytes
  extensions : Option (List Extension)
  length_version : version.length = 2
  length_random : random.length = 32
  length_sessionID : sessionID.length ≤ 32
  suites_fit : 2 * cipherSuites.length < 256 ^ 2
  compression_fits : compressionMethods.length < 256
  extensions_fit : ∀ exts ∈ extensions, (exts.flatMap Extension.encode).length < 256 ^ 2

namespace HelloMessage

def encodeSuites (suites : List UInt16) : Bytes := suites.flatMap fun suite => putBE 2 suite.toNat

def encodeExtensions : Option (List Extension) → Bytes
  | none => []
  | some exts =>
    putBE 2 (exts.flatMap Extension.encode).length ++ exts.flatMap Extension.encode

/-- The fields behind the session id. -/
def tail (m : HelloMessage) : Bytes :=
  putBE 2 (2 * m.cipherSuites.length) ++ (encodeSuites m.cipherSuites ++
    (putBE 1 m.compressionMethods.length ++ (m.compressionMethods ++ encodeExtensions m.extensions)))

def body (m : HelloMessage) : Bytes :=
  m.version ++ (m.random ++ (putBE 1 m.sessionID.length ++ (m.sessionID ++ m.tail)))

/-- The handshake message: the type, the length and the body. -/
def encode (m : HelloMessage) : Bytes := 0x01 :: (putBE 3 m.body.length ++ m.body)

/-- The first `host_name` of the extension `server_name`, or nothing. -/
def hostName (m : HelloMessage) : Bytes :=
  ((m.extensions.getD []).findSome? Extension.hostName).getD []

end HelloMessage

/-- A record with a ClientHello. Behind a ClientHello with extensions the record may go on; without
the block of extensions the parser takes what follows for it. -/
structure HelloRecord where
  message : HelloMessage
  minor : UInt8
  more : Bytes
  minor_ge : 0x01 ≤ minor
  minor_le : minor ≤ 0x03
  more_eq : message.extensions = none → more = []
  fits : (message.encode ++ more).length < 256 ^ 2

def HelloRecord.encode (r : HelloRecord) : Bytes :=
  0x16 :: 0x03 :: r.minor :: (putBE 2 (r.message.encode ++ r.more).length ++
    (r.message.encode ++ r.more))

/-! ## Parsing what is encoded -/

section Encoded

/-- The loop over the names, from the first name that is not yet read. -/
theorem hostName_encode (pre : Bytes) (names : List ServerName) {data : Bytes}
    (hdata : data = pre ++ names.flatMap ServerName.encode) :
    hostName data data.length pre.length = ServerName.first names := by
  induction names generalizing pre with
  | nil =>
    rw [hostName, if_neg (by simp [hdata])]
    rfl
  | cons n names ih =>
    set rest := names.flatMap ServerName.encode with hrest
    have hsplit : data = (pre ++ n.encode) ++ rest := by
      rw [hdata, List.flatMap_cons, List.append_assoc]
    have hfields : data = (pre ++ [n.nameType]) ++ (putBE 2 n.name.length ++ (n.name ++ rest)) := by
      rw [hsplit, ServerName.encode]
      simp
    have hpre : (pre ++ n.encode).length = pre.length + 3 + n.name.length := by
      rw [List.length_append, n.length_encode, Nat.add_assoc]
    have hlen : data.length = pre.length + 3 + n.name.length + rest.length := by
      rw [hsplit, List.length_append, hpre]
    have htype : data.getD pre.length 0 = n.nameType := by
      simp [hfields]
    have hoff : pre.length + 1 = (pre ++ [n.nameType]).length := by simp
    obtain ⟨hname, hbytes, -⟩ := slice_counted hfields hoff n.fits
    have hnext := ih (pre ++ n.encode) hsplit
    rw [hpre] at hnext
    rw [hostName, if_pos (by omega)]
    simp only [htype, hname, hbytes, hnext]
    rw [if_pos (by omega), ServerName.first_cons]

theorem serverName_encode (e : Extension) :
    (if e.extType.toNat = 0x0000 then serverName e.data else none) = e.hostName := by
  cases e with
  | serverName names fits =>
    have hlist : getBE ((Extension.serverName names fits).data.take 2)
        = (names.flatMap ServerName.encode).length := by
      rw [Extension.data, List.take_left' (length_putBE _ _), getBE_putBE_of_lt (by omega)]
    have hlen : (Extension.serverName names fits).data.length
        = 2 + (names.flatMap ServerName.encode).length := by
      rw [Extension.data, List.length_append, length_putBE]
    have hnames := hostName_encode (putBE 2 (names.flatMap ServerName.encode).length) names rfl
    rw [length_putBE] at hnames
    have htype : (Extension.serverName names fits).extType.toNat = 0x0000 := rfl
    rw [if_pos htype, serverName, if_pos (by omega)]
    simp only [hlist]
    rw [if_pos hlen.ge, ← hlen]
    exact hnames
  | other extType data ne fits =>
    exact if_neg fun h => ne (UInt16.toNat_inj.mp h)

/-- The loop over the extensions, from the first one that is not yet read. -/
theorem parseSNIExtension_encode (pre : Bytes) (exts : List Extension) {extBytes : Bytes}
    (hext : extBytes = pre ++ exts.flatMap Extension.encode) :
    parseSNIExtension extBytes pre.length = (exts.findSome? Extension.hostName).getD [] := by
  induction exts generalizing pre with
  | nil =>
    rw [parseSNIExtension, if_neg (by simp [hext])]
    rfl
  | cons e exts ih =>
    set rest := exts.flatMap Extension.encode with hrest
    have hsplit : extBytes = (pre ++ e.encode) ++ rest := by
      rw [hext, List.flatMap_cons, List.append_assoc]
    have hfields : extBytes
        = pre ++ (putBE 2 e.extType.toNat ++ (putBE 2 e.data.length ++ (e.data ++ rest))) := by
      rw [hsplit, Extension.encode]
      simp
    have hpre : (pre ++ e.encode).length = pre.length + 4 + e.data.length := by
      rw [List.length_append, e.length_encode, Nat.add_assoc]
    have hlen : extBytes.length = pre.length + 4 + e.data.length + rest.length := by
      rw [hsplit, List.length_append, hpre]
    have htype : getBE (slice extBytes pre.length 2) = e.extType.toNat := by
      rw [hfields]
      exact getBE_slice_middle rfl e.extType.toNat_lt
    have hoff : pre.length + 2 = (pre ++ putBE 2 e.extType.toNat).length := by simp
    obtain ⟨hdatalen, hdata, -⟩ :=
      slice_counted (hfields.trans (List.append_assoc _ _ _).symm) hoff e.length_data_lt
    have hnext := ih (pre ++ e.encode) hsplit
    rw [hpre] at hnext
    rw [parseSNIExtension, if_pos (by omega)]
    simp only [htype, hdatalen, hdata, hnext, serverName_encode]
    rw [if_neg (by omega), List.findSome?_cons]
    cases e.hostName with
    | some name => rfl
    | none => rfl

theorem length_encodeSuites (suites : List UInt16) :
    (HelloMessage.encodeSuites suites).length = 2 * suites.length := by
  induction suites with
  | nil => rfl
  | cons suite suites ih =>
    rw [HelloMessage.encodeSuites, List.flatMap_cons, List.length_append, length_putBE,
      ← HelloMessage.encodeSuites, ih, List.length_cons]
    ring

/-- The name is found from the cipher suites on. -/
theorem parseClientHelloName_encode (m : HelloMessage) (pre : Bytes) {more hs : Bytes}
    (hmore : m.extensions = none → more = []) (hhs : hs = pre ++ (m.tail ++ more)) :
    parseClientHelloName hs pre.length = m.hostName := by
  -- the bytes in front of the compression methods, and those in front of the extensions
  obtain ⟨suites, hsuites⟩ : ∃ suites, suites = pre ++ (putBE 2 (2 * m.cipherSuites.length) ++
    HelloMessage.encodeSuites m.cipherSuites) := ⟨_, rfl⟩
  obtain ⟨comp, hcomp⟩ : ∃ comp, comp = suites ++
    (putBE 1 m.compressionMethods.length ++ m.compressionMethods) := ⟨_, rfl⟩
  have hhs₁ : hs = pre ++ (putBE 2 (2 * m.cipherSuites.length) ++
      (HelloMessage.encodeSuites m.cipherSuites ++ (putBE 1 m.compressionMethods.length ++
        (m.compressionMethods ++ (HelloMessage.encodeExtensions m.extensions ++ more))))) := by
    rw [hhs, HelloMessage.tail]
    simp only [List.append_assoc]
  have hhs₂ : hs = suites ++ (putBE 1 m.compressionMethods.length ++
      (m.compressionMethods ++ (HelloMessage.encodeExtensions m.extensions ++ more))) := by
    rw [hhs₁, hsuites]
    simp only [List.append_assoc]
  have hhs₃ : hs = comp ++ (HelloMessage.encodeExtensions m.extensions ++ more) := by
    rw [hhs₂, hcomp]
    simp only [List.append_assoc]
  have hlen₂ : suites.length = pre.length + 2 + 2 * m.cipherSuites.length := by
    rw [hsuites, List.length_append, List.length_append, length_putBE, length_encodeSuites,
      Nat.add_assoc]
  have hlen₃ : comp.length = suites.length + 1 + m.compressionMethods.length := by
    rw [hcomp, List.length_append, List.length_append, length_putBE, Nat.add_assoc]
  have hlen : comp.length ≤ hs.length := by
    rw [hhs₃, List.length_append]
    omega
  have hsuitesLen : getBE (slice hs pre.length 2) = 2 * m.cipherSuites.length := by
    rw [hhs₁]
    exact getBE_slice_middle rfl m.suites_fit
  have hcompLen : (hs.getD suites.length 0).toNat = m.compressionMethods.length := by
    rw [hhs₂]
    exact getD_middle rfl m.compression_fits
  rw [parseClientHelloName, if_neg (by omega)]
  simp only [hsuitesLen, ← hlen₂, hcompLen, ← hlen₃]
  rw [if_neg (by omega), if_neg (by omega), if_neg (by omega)]
  cases hexts : m.extensions with
  | none =>
    have hend : hs.length = comp.length := by
      rw [hhs₃, hexts, hmore hexts, HelloMessage.encodeExtensions, List.append_nil, List.append_nil]
    rw [if_pos (by omega), HelloMessage.hostName, hexts]
    rfl
  | some exts =>
    have hhs₄ : hs = comp ++ (putBE 2 (exts.flatMap Extension.encode).length ++
        (exts.flatMap Extension.encode ++ more)) := by
      rw [hhs₃, hexts, HelloMessage.encodeExtensions, List.append_assoc]
    obtain ⟨htotal, hbytes, hlen₄⟩ := slice_counted hhs₄ rfl (m.extensions_fit exts hexts)
    rw [if_neg (by omega)]
    simp only [htotal, hbytes]
    rw [if_neg (by omega), HelloMessage.hostName, hexts]
    exact parseSNIExtension_encode [] exts rfl

theorem length_body_lt (m : HelloMessage) : m.body.length < 256 ^ 3 := by
  have hexts : (HelloMessage.encodeExtensions m.extensions).length < 2 + 256 ^ 2 := by
    cases hexts : m.extensions with
    | none => simp [HelloMessage.encodeExtensions]
    | some exts =>
      have := m.extensions_fit exts hexts
      simp only [HelloMessage.encodeExtensions, List.length_append, length_putBE]
      omega
  have hversion := m.length_version
  have hrandom := m.length_random
  have hid := m.length_sessionID
  have hsuites := m.suites_fit
  have hcomp := m.compression_fits
  simp only [HelloMessage.body, HelloMessage.tail, List.length_append, length_putBE,
    length_encodeSuites]
  omega

theorem parseHandshake_encode (m : HelloMessage) {more : Bytes}
    (hmore : m.extensions = none → more = []) :
    parseHandshake (m.encode ++ more) = .ok ⟨m.sessionID, m.hostName⟩ := by
  obtain ⟨hs, hhs⟩ : ∃ hs, hs = m.encode ++ more := ⟨_, rfl⟩
  obtain ⟨pre, hpre⟩ : ∃ pre, pre = 0x01 :: (putBE 3 m.body.length ++ (m.version ++ m.random)) :=
    ⟨_, rfl⟩
  have hversion := m.length_version
  have hrandom := m.length_random
  have hid := m.length_sessionID
  have hlenpre : pre.length = 38 := by
    simp [hpre, hversion, hrandom]
  have hhs₁ : hs = [0x01] ++ (putBE 3 m.body.length ++ (m.body ++ more)) := by
    rw [hhs, HelloMessage.encode]
    simp
  have hhs₂ : hs = pre ++ (putBE 1 m.sessionID.length ++ (m.sessionID ++ (m.tail ++ more))) := by
    rw [hhs₁, hpre, HelloMessage.body]
    simp
  have hhs₃ : hs = (pre ++ (putBE 1 m.sessionID.length ++ m.sessionID)) ++ (m.tail ++ more) := by
    rw [hhs₂]
    simp only [List.append_assoc]
  obtain ⟨hbody, -, hlen₁⟩ : getBE (slice hs 1 3) = m.body.length ∧ _ ∧
      hs.length = 4 + m.body.length + more.length := slice_counted hhs₁ rfl (length_body_lt m)
  obtain ⟨-, hidBytes, hlen₂⟩ := slice_counted hhs₂ hlenpre.symm (by omega)
  have htype : hs.getD 0 0 = 0x01 := by
    rw [hhs₁]
    rfl
  have hidLen : (hs.getD 38 0).toNat = m.sessionID.length := by
    rw [hhs₂]
    exact getD_middle hlenpre.symm (by omega)
  have hname := parseClientHelloName_encode m _ hmore hhs₃
  rw [List.length_append, List.length_append, length_putBE, hlenpre, ← Nat.add_assoc] at hname
  rw [← hhs, parseHandshake, if_neg (by omega), if_neg (not_not.mpr htype)]
  simp only [hbody, hidLen, hidBytes, hname]
  rw [if_neg (by omega), if_neg (by omega), if_neg (by omega)]

/-- **The parser finds the session id and the name of an encoded ClientHello.** -/
theorem parseTLSClientHello_encode (r : HelloRecord) (rest : Bytes) :
    parseTLSClientHello (r.encode ++ rest) = .ok ⟨r.message.sessionID, r.message.hostName⟩ := by
  obtain ⟨payload, hpayload⟩ : ∃ payload, payload = r.message.encode ++ r.more := ⟨_, rfl⟩
  obtain ⟨buf, hbuf⟩ : ∃ buf, buf = r.encode ++ rest := ⟨_, rfl⟩
  have hbuf₁ : buf = [0x16, 0x03, r.minor] ++ (putBE 2 payload.length ++ (payload ++ rest)) := by
    rw [hbuf, HelloRecord.encode, ← hpayload]
    simp
  have hrecord : isTLSRecord buf = true := by
    rw [hbuf₁]
    exact decide_eq_true ⟨rfl, rfl, r.minor_ge, r.minor_le⟩
  obtain ⟨hlength, hbytes, hlen⟩ : recordLength buf = payload.length ∧
      slice buf 5 payload.length = payload ∧ buf.length = 5 + payload.length + rest.length :=
    slice_counted hbuf₁ rfl (hpayload ▸ r.fits)
  rw [← hbuf, parseTLSClientHello, if_neg (by omega), if_neg (not_not.mpr hrecord), hlength,
    if_neg (by omega), hbytes, hpayload]
  exact parseHandshake_encode r.message r.more_eq

end Encoded

/-- **The parser inverts the encoder and is safe for every byte string.** -/
theorem parseTLSClientHello_correct :
    (∀ (r : HelloRecord) (rest : Bytes), parseTLSClientHelloChecked (r.encode ++ rest)
      = some (.ok ⟨r.message.sessionID, r.message.hostName⟩)) ∧
    ∀ record : Bytes, ∃ result, parseTLSClientHelloChecked record = some result ∧
      ∀ hello, result = .ok hello →
        hello.sessionID <:+: record.take (5 + recordLength record) ∧
        hello.sni <:+: record.take (5 + recordLength record) := by
  refine ⟨fun r rest => ?_, fun record => ?_⟩
  · rw [parseTLSClientHelloChecked_eq, parseTLSClientHello_encode]
  · exact ⟨_, parseTLSClientHelloChecked_eq record, fun hello h => parseTLSClientHello_isInfix h⟩

/-- A ClientHello with another extension in front of `server_name`, and a name of another type. -/
example : ∃ r : HelloRecord, r.message.sessionID = [7, 8] ∧ r.message.hostName = [0x61, 0x62] :=
  ⟨⟨⟨[3, 3], List.replicate 32 0, [7, 8], [0x1301, 0x1302], [0],
      some [.other 0x2b [2, 3, 4] (by decide) (by decide),
        .serverName [⟨1, [0x63], by decide⟩, ⟨0, [0x61, 0x62], by decide⟩] (by decide)],
      rfl, rfl, by decide, by decide, by decide, by simp; decide⟩,
    1, [0xff], by decide, by decide, by simp, by decide⟩, rfl, rfl⟩

end ObsidianVPN.Reality
