import ObsidianVPN.Lib.Bytes

/-!
# Strings as byte strings

A Go string is a sequence of bytes. This module gives the few operations of the packages
`strings` and `encoding/hex` that are needed, on `Bytes`.

* `trimSpace`: drop the white space at both ends (the UTF-8 encodings of the code points that
  `unicode.IsSpace` accepts);
* `trimPrefix`, `trimSuffix`, `cutAny`: drop a given beginning or end, or all from the first of some
  bytes on;
* `hexDecode`: pairs of hexadecimal digits, `none` on any other input;
* `formatHex`: a number in hexadecimal.
-/

namespace GoString

open ByteStr

/-- The bytes of a string constant. -/
def ascii (s : String) : Bytes := s.toUTF8.data.toList

/-- The encodings of the white space characters. -/
def spaces : List Bytes :=
  [[0x09], [0x0a], [0x0b], [0x0c], [0x0d], [0x20], [0xc2, 0x85], [0xc2, 0xa0],
    [0xe1, 0x9a, 0x80]] ++
  ((List.range 11).map fun i => [0xe2, 0x80, 0x80 + UInt8.ofNat i]) ++
  [[0xe2, 0x80, 0xa8], [0xe2, 0x80, 0xa9], [0xe2, 0x80, 0xaf], [0xe2, 0x81, 0x9f],
    [0xe3, 0x80, 0x80]]

/-- Drop strings of `ws` from the front, at most `fuel` times. -/
def trimFront (ws : List Bytes) : ℕ → Bytes → Bytes
  | 0, s => s
  | fuel + 1, s =>
    match ws.find? fun w => w.isPrefixOf s with
    | some w => trimFront ws fuel (s.drop w.length)
    | none => s

/-- `strings.TrimSpace`. -/
def trimSpace (s : Bytes) : Bytes :=
  let front := trimFront spaces s.length s
  (trimFront (spaces.map List.reverse) front.length front.reverse).reverse

/-- `strings.TrimPrefix`. -/
def trimPrefix (start s : Bytes) : Bytes := if start.isPrefixOf s then s.drop start.length else s

/-- `strings.TrimSuffix`. -/
def trimSuffix (ending s : Bytes) : Bytes :=
  if ending.isSuffixOf s then s.take (s.length - ending.length) else s

theorem trimSuffix_append (a ending : Bytes) : trimSuffix ending (a ++ ending) = a := by
  have hsuf : ending.isSuffixOf (a ++ ending) = true :=
    List.isSuffixOf_iff_suffix.mpr (List.suffix_append _ _)
  rw [trimSuffix, if_pos hsuf, List.length_append, Nat.add_sub_cancel, List.take_left]

/-- The part before the first of the given bytes, found with `strings.IndexAny`. -/
def cutAny (chars s : Bytes) : Bytes := s.takeWhile fun c => decide (c ∉ chars)

/-- The value of a hexadecimal digit. -/
def fromHexChar (c : UInt8) : Option UInt8 :=
  if 0x30 ≤ c ∧ c ≤ 0x39 then some (c - 0x30)
  else if 0x61 ≤ c ∧ c ≤ 0x66 then some (c - 0x61 + 10)
  else if 0x41 ≤ c ∧ c ≤ 0x46 then some (c - 0x41 + 10)
  else none

/-- `hex.DecodeString`; `none` is an error. -/
def hexDecode : Bytes → Option Bytes
  | [] => some []
  | [_] => none
  | a :: b :: s => do
    let hi ← fromHexChar a
    let lo ← fromHexChar b
    let rest ← hexDecode s
    return (hi <<< 4 ||| lo) :: rest

/-- A number in hexadecimal, with leading zeros up to the given width (the verb `%08x`). -/
def formatHex (width n : ℕ) : String :=
  let digits := Nat.toDigits 16 n
  String.ofList (List.replicate (width - digits.length) '0' ++ digits)

end GoString
