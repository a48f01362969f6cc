import ObsidianVPN.Lib.GoString

/-!
# CPS: custom protocol signatures

A signature is a list of tags such as `<b 0xc700><rc 8><t><r 100>`; it generates packets that look
like those of another protocol. Random bytes and the clock are arguments.

* `parseCPS`, `parseTag`, `parseN`: the parser;
* `Token.generate`, `CPSSignature.generate`: a packet;
* `length_generate`: the length of a packet depends on the signature only.
-/

namespace ObsidianVPN.Handshake

open ByteStr GoString

/-- `cpsToken`. -/
inductive Token where
  | bytes (data : Bytes)
  | time
  | rand (length : ℕ)
  | randAlnum (length : ℕ)
  | randDigit (length : ℕ)
  deriving DecidableEq, Repr

structure CPSSignature where
  tokens : List Token
  raw : Bytes
  deriving DecidableEq, Repr

/-- The errors of the parser, with the texts they quote. -/
inductive CPSError where
  | expectedTag (rest : Bytes)
  | unclosedTag (rest : Bytes)
  | invalidHex (hexStr : Bytes)
  | unknownTag (tag : Bytes)
  | expectedInteger (tag : Bytes) (s : Bytes)
  | notPositive (tag : Bytes) (n : ℤ)
  | tooLarge (tag : Bytes) (n : ℤ)
  | emptySignature
  deriving DecidableEq, Repr

/-! ## Parsing -/

/-- The digits of `parseN`; the value is an `int64` and may wrap. -/
def parseDigits (n : ℤ) : Bytes → Option ℤ
  | [] => some n
  | c :: s => if c < 0x30 ∨ c > 0x39 then none else parseDigits (wrap64 (n * 10 + (c - 0x30).toNat)) s

/-- `parseN`; the tag is for the error. -/
def parseN (tag s : Bytes) : Except CPSError ℕ :=
  let s := trimSpace s
  match parseDigits 0 s with
  | none => .error (.expectedInteger tag s)
  | some n =>
    if n ≤ 0 then .error (.notPositive tag n)
    else if n > 65535 then .error (.tooLarge tag n)
    else .ok n.toNat

def parseTag (tag : Bytes) : Except CPSError Token :=
  let tag := trimSpace tag
  if tag = ascii "t" then .ok .time
  else if (ascii "b ").isPrefixOf tag then
    let hexStr := tag.drop 2
    let hexStr := if (ascii "0x").isPrefixOf hexStr then hexStr.drop 2 else hexStr
    let hexStr := hexStr.filter fun c => decide (c ≠ 0x20)
    match hexDecode hexStr with
    | some b => .ok (.bytes b)
    | none => .error (.invalidHex hexStr)
  else if (ascii "rc ").isPrefixOf tag then
    (parseN (ascii "rc") (tag.drop 3)).map .randAlnum
  else if (ascii "rd ").isPrefixOf tag then
    (parseN (ascii "rd") (tag.drop 3)).map .randDigit
  else if (ascii "r ").isPrefixOf tag then
    (parseN (ascii "r") (tag.drop 2)).map .rand
  else .error (.unknownTag tag)

/-- The loop of `ParseCPS`. Every round removes at least the two brackets, so the length of the
input is enough fuel. -/
def parseTags : ℕ → Bytes → Except CPSError (List Token)
  | _, [] => .ok []
  | 0, rest => .error (.unclosedTag rest)
  | fuel + 1, c :: rest =>
    if c ≠ 0x3c then .error (.expectedTag (c :: rest))
    else if 0x3e ∉ rest then .error (.unclosedTag (c :: rest))
    else
      let tag := rest.takeWhile fun b => decide (b ≠ 0x3e)
      let after := trimSpace (rest.drop (tag.length + 1))
      match parseTag tag with
      | .error err => .error err
      | .ok tok =>
        match parseTags fuel after with
        | .error err => .error err
        | .ok toks => .ok (tok :: toks)

def parseCPS (s : Bytes) : Except CPSError CPSSignature :=
  let rest := trimSpace s
  match parseTags rest.length rest with
  | .error err => .error err
  | .ok [] => .error .emptySignature
  | .ok tokens => .ok ⟨tokens, s⟩

/-! ## Generation -/

def alnumChars : Bytes := ascii "ABCDEFGHIJKLMNOPQRSTUVWXYZabcdefghijklmnopqrstuvwxyz0123456789"
def digitChars : Bytes := ascii "0123456789"

def randomCharset (n : ℕ) (charset : Bytes) (rb : ℕ → UInt8) : Bytes :=
  (fill n rb).map fun b => charset.getD (b.toNat % charset.length) 0

/-- One token at the Unix time `now`, with its random bytes. -/
def Token.generate (now : ℤ) (rb : ℕ → UInt8) : Token → Bytes
  | .bytes data => data
  | .time => putLE 4 (now % 2 ^ 32).toNat
  | .rand n => fill n rb
  | .randAlnum n => randomCharset n alnumChars rb
  | .randDigit n => randomCharset n digitChars rb

/-- The number of bytes a token stands for. -/
def Token.size : Token → ℕ
  | .bytes data => data.length
  | .time => 4
  | .rand n => n
  | .randAlnum n => n
  | .randDigit n => n

/-- A packet; the random bytes of token `i` are `rb i`. -/
def generateTokens (now : ℤ) (rb : ℕ → ℕ → UInt8) : ℕ → List Token → Bytes
  | _, [] => []
  | i, tok :: toks => tok.generate now (rb i) ++ generateTokens now rb (i + 1) toks

def CPSSignature.generate (sig : CPSSignature) (now : ℤ) (rb : ℕ → ℕ → UInt8) : Bytes :=
  generateTokens now rb 0 sig.tokens

/-- The number of bytes of the packets of a signature. -/
def CPSSignature.size (sig : CPSSignature) : ℕ := (sig.tokens.map Token.size).sum

theorem Token.length_generate (now : ℤ) (rb : ℕ → UInt8) (tok : Token) :
    (tok.generate now rb).length = tok.size := by
  cases tok <;> simp [Token.generate, Token.size, randomCharset]

theorem length_generateTokens (now : ℤ) (rb : ℕ → ℕ → UInt8) (i : ℕ) (toks : List Token) :
    (generateTokens now rb i toks).length = (toks.map Token.size).sum := by
  induction toks generalizing i with
  | nil => rfl
  | cons tok toks ih => simp [generateTokens, Token.length_generate, ih]

/-- **The length of a packet depends on the signature only.** -/
theorem CPSSignature.length_generate (sig : CPSSignature) (now : ℤ) (rb : ℕ → ℕ → UInt8) :
    (sig.generate now rb).length = sig.size :=
  length_generateTokens now rb 0 sig.tokens

end ObsidianVPN.Handshake
