import ObsidianVPN.Lib.Bytes

/-!
# The TLS ClientHello

`parseTLSClientHello` reads the session id and the server name out of a buffer that begins with a
TLS record. What comes behind the record does not matter (**`parseTLSClientHello_append`**).

* `isTLSRecord`, `recordLength`: the five bytes of the record header;
* `hostName`, `parseSNIExtension`: the loops over the names and over the extensions;
* `parseClientHelloName`, `parseHandshake`: the fields of the ClientHello, one behind the other.
-/

namespace ObsidianVPN.Reality

open ByteStr

inductive HelloError where
  | notTLS
  | notClientHello
  | truncatedRecord
  deriving DecidableEq

/-- The result of `ParseTLSClientHello` when it returns no error; `isClientHello` is then true, and
otherwise it is false. -/
structure ClientHello where
  sessionID : Bytes
  sni : Bytes
  deriving DecidableEq

/-! ## Server name -/

/-- The inner loop of `parseSNIExtension`: the first host name in the list up to `listEnd`. -/
def hostName (data : Bytes) (listEnd subOffset : ℕ) : Option Bytes :=
  if subOffset + 3 ≤ listEnd then
    let nameType := data.getD subOffset 0
    let nameLen := getBE (slice data (subOffset + 1) 2)
    if subOffset + 3 + nameLen ≤ data.length then
      if nameType = 0x00 then some (slice data (subOffset + 3) nameLen)
      else hostName data listEnd (subOffset + 3 + nameLen)
    else none
  else none
termination_by listEnd - subOffset

/-- The name in the body of one `server_name` extension. -/
def serverName (data : Bytes) : Option Bytes :=
  if 2 ≤ data.length then
    let listLen := getBE (data.take 2)
    if data.length ≥ 2 + listLen then hostName data (2 + listLen) 2 else none
  else none

/-- `parseSNIExtension` from `extOffset` on. -/
def parseSNIExtension (extBytes : Bytes) (extOffset : ℕ) : Bytes :=
  if extOffset + 4 ≤ extBytes.length then
    let extType := getBE (slice extBytes extOffset 2)
    let extLen := getBE (slice extBytes (extOffset + 2) 2)
    if extOffset + 4 + extLen > extBytes.length then []
    else
      let data := slice extBytes (extOffset + 4) extLen
      match if extType = 0x0000 then serverName data else none with
      | some name => name
      | none => parseSNIExtension extBytes (extOffset + 4 + extLen)
  else []
termination_by extBytes.length - extOffset

/-! ## The handshake message -/

/-- The server name of the handshake message `hs`, from the cipher suites at `offset` on. It is
empty when one of the fields before the extensions is cut off. -/
def parseClientHelloName (hs : Bytes) (offset : ℕ) : Bytes :=
  if hs.length < offset + 2 then []
  else
    let offset := offset + 2 + getBE (slice hs offset 2)
    if hs.length < offset then []
    else if hs.length < offset + 1 then []
    else
      let offset := offset + 1 + (hs.getD offset 0).toNat
      if hs.length < offset then []
      else if hs.length < offset + 2 then []
      else
        let extTotalLen := getBE (slice hs offset 2)
        if hs.length < offset + 2 + extTotalLen then []
        else parseSNIExtension (slice hs (offset + 2) extTotalLen) 0

/-- `ParseTLSClientHello` from the payload of the record on. -/
def parseHandshake (hs : Bytes) : Except HelloError ClientHello :=
  if hs.length < 4 then .error .notClientHello
  else if hs.getD 0 0 ≠ 0x01 then .error .notClientHello
  else if hs.length < 4 + getBE (slice hs 1 3) then .error .truncatedRecord
  else if hs.length < 4 + 2 + 32 + 1 then .error .truncatedRecord
  else
    let sessionIDLen := (hs.getD 38 0).toNat
    if hs.length < 39 + sessionIDLen then .error .truncatedRecord
    else .ok ⟨slice hs 39 sessionIDLen, parseClientHelloName hs (39 + sessionIDLen)⟩

/-! ## The record -/

/-- The content type and the version of a handshake record. -/
def isTLSRecord (buf : Bytes) : Bool :=
  decide (buf.getD 0 0 = 0x16 ∧ buf.getD 1 0 = 0x03 ∧ 0x01 ≤ buf.getD 2 0 ∧ buf.getD 2 0 ≤ 0x03)

def recordLength (buf : Bytes) : ℕ := getBE (slice buf 3 2)

def parseTLSClientHello (record : Bytes) : Except HelloError ClientHello :=
  if record.length < 5 then .error .truncatedRecord
  else if ¬isTLSRecord record then .error .notTLS
  else if record.length < 5 + recordLength record then .error .truncatedRecord
  else parseHandshake (slice record 5 (recordLength record))

variable {buf : Bytes} (rest : Bytes)

theorem isTLSRecord_append (h : 5 ≤ buf.length) : isTLSRecord (buf ++ rest) = isTLSRecord buf := by
  have hget : ∀ i < 5, (buf ++ rest).getD i 0 = buf.getD i 0 := by
    intro i hi
    exact List.getD_append _ _ _ _ (hi.trans_le h)
  simp only [isTLSRecord, hget 0 (by decide), hget 1 (by decide), hget 2 (by decide)]

theorem recordLength_append (h : 5 ≤ buf.length) : recordLength (buf ++ rest) = recordLength buf :=
  congrArg getBE (slice_append_left buf rest h)

/-- **Only the first record counts.** -/
theorem parseTLSClientHello_append (h : 5 ≤ buf.length)
    (hrecord : 5 + recordLength buf ≤ buf.length) :
    parseTLSClientHello (buf ++ rest) = parseTLSClientHello buf := by
  have hlen : buf.length ≤ (buf ++ rest).length := (List.prefix_append _ _).length_le
  unfold parseTLSClientHello
  rw [isTLSRecord_append rest h, recordLength_append rest h, slice_append_left buf rest hrecord]
  simp only [if_neg (not_lt.mpr h), if_neg (not_lt.mpr (h.trans hlen)),
    if_neg (not_lt.mpr hrecord), if_neg (not_lt.mpr (hrecord.trans hlen))]

end ObsidianVPN.Reality
