import ObsidianVPN.Lib.GoString

/-!
# Escaped query components

`url.QueryEscape` and `url.QueryUnescape` of the package `net/url`, on byte strings. A blank is
written as `+`, every other byte that is not unreserved as `%` and two hexadecimal digits.

* `queryEscape`, `queryUnescape`, where `none` is an error;
* **`queryUnescape_queryEscape`**: an escaped string is read back;
* `queryEscape_mem`: what an escaped string consists of;
* **`queryUnescape_eq_self_iff`**: which strings stay as they are when they are unescaped.
-/

namespace QueryEscape

open ByteStr GoString

def unreserved (c : UInt8) : Bool :=
  (0x61 ≤ c && c ≤ 0x7a) || (0x41 ≤ c && c ≤ 0x5a) || (0x30 ≤ c && c ≤ 0x39) ||
    c == 0x2d || c == 0x5f || c == 0x2e || c == 0x7e

def upperHex (n : UInt8) : UInt8 := if n < 10 then 0x30 + n else 0x41 + (n - 10)

def escapeByte (c : UInt8) : Bytes :=
  if c = 0x20 then [0x2b]
  else if unreserved c then [c]
  else [0x25, upperHex (c >>> 4), upperHex (c &&& 0xf)]

def queryEscape (s : Bytes) : Bytes := s.flatMap escapeByte

def queryUnescape : Bytes → Option Bytes
  | [] => some []
  | c :: s =>
    if c = 0x25 then
      match s with
      | a :: b :: t =>
        match fromHexChar a, fromHexChar b with
        | some hi, some lo => (queryUnescape t).map ((hi <<< 4 ||| lo) :: ·)
        | _, _ => none
      | _ => none
    else (queryUnescape s).map ((if c = 0x2b then 0x20 else c) :: ·)

theorem upperHex_spec {n : UInt8} (hn : n.toNat < 16) :
    fromHexChar (upperHex n) = some n ∧ unreserved (upperHex n) = true := by
  have hall : ∀ m < 16, fromHexChar (upperHex (UInt8.ofNat m)) = some (UInt8.ofNat m) ∧
      unreserved (upperHex (UInt8.ofNat m)) = true := by decide
  have := hall n.toNat hn
  rwa [UInt8.ofNat_toNat] at this

theorem halves_lt (c : UInt8) : (c >>> 4).toNat < 16 ∧ (c &&& 0xf).toNat < 16 := by
  have hc := c.toNat_lt
  constructor
  · rw [UInt8.toNat_shiftRight]
    rw [show (4 : UInt8).toNat % 8 = 4 from rfl, Nat.shiftRight_eq_div_pow]
    omega
  · rw [UInt8.toNat_and]
    exact Nat.lt_succ_of_le Nat.and_le_right

theorem joinHalves (c : UInt8) : (c >>> 4) <<< 4 ||| (c &&& 0xf) = c := by
  have hall : ∀ m < 256, UInt8.ofNat m >>> 4 <<< 4 ||| (UInt8.ofNat m &&& 0xf) = UInt8.ofNat m := by
    decide +kernel
  have := hall c.toNat c.toNat_lt
  rwa [UInt8.ofNat_toNat] at this

theorem unreserved_ne {c : UInt8} (h : unreserved c = true) : c ≠ 0x25 ∧ c ≠ 0x2b := by
  constructor <;> rintro rfl <;> exact absurd h (by decide)

theorem queryUnescape_cons {c : UInt8} (hc : c ≠ 0x25) (s : Bytes) :
    queryUnescape (c :: s) = (queryUnescape s).map ((if c = 0x2b then 0x20 else c) :: ·) := by
  rw [queryUnescape.eq_def]
  exact if_neg hc

theorem queryUnescape_escapeByte (c : UInt8) (rest : Bytes) :
    queryUnescape (escapeByte c ++ rest) = (queryUnescape rest).map (c :: ·) := by
  unfold escapeByte
  split
  · rename_i hc
    rw [hc]
    exact queryUnescape_cons (by decide) rest
  · split
    · rename_i hc
      obtain ⟨hpercent, hplus⟩ := unreserved_ne hc
      rw [List.singleton_append, queryUnescape_cons hpercent, if_neg hplus]
    · obtain ⟨hhi, hlo⟩ := halves_lt c
      simp [queryUnescape, (upperHex_spec hhi).1, (upperHex_spec hlo).1, joinHalves]

/-- **An escaped string is read back.** -/
theorem queryUnescape_queryEscape (s : Bytes) : queryUnescape (queryEscape s) = some s := by
  induction s with
  | nil => rfl
  | cons c s ih =>
    rw [queryEscape, List.flatMap_cons, queryUnescape_escapeByte, ← queryEscape, ih]
    rfl

/-- An escaped string consists of unreserved characters, `%` and `+`. -/
theorem queryEscape_mem {s : Bytes} {c : UInt8} (h : c ∈ queryEscape s) :
    unreserved c = true ∨ c = 0x25 ∨ c = 0x2b := by
  obtain ⟨d, -, hd⟩ := List.mem_flatMap.mp h
  unfold escapeByte at hd
  split at hd
  · exact .inr (.inr (List.mem_singleton.mp hd))
  · split at hd
    · rename_i hun
      rw [List.mem_singleton.mp hd]
      exact .inl hun
    · obtain ⟨hhi, hlo⟩ := halves_lt d
      simp only [List.mem_cons, List.not_mem_nil, or_false] at hd
      rcases hd with rfl | rfl | rfl
      · exact .inr (.inl rfl)
      · exact .inl (upperHex_spec hhi).2
      · exact .inl (upperHex_spec hlo).2

/-! ## What unescaping leaves alone -/

theorem queryUnescape_of_no_percent {s : Bytes} (h : 0x25 ∉ s) :
    queryUnescape s = some (s.map fun c => if c = 0x2b then 0x20 else c) := by
  induction s with
  | nil => rfl
  | cons c s ih =>
    obtain ⟨hc, hs⟩ := not_or.mp (List.mem_cons.not.mp h)
    rw [queryUnescape_cons (Ne.symm hc), ih hs]
    rfl

/-- Unescaping makes a string shorter if there is an escape. -/
theorem length_queryUnescape {s t : Bytes} (h : queryUnescape s = some t) :
    t.length ≤ s.length ∧ (0x25 ∈ s → t.length < s.length) := by
  fun_induction queryUnescape s generalizing t with
  | case1 =>
    obtain rfl := Option.some.inj h
    simp
  | case2 a b s hi lo _ _ ih =>
    obtain ⟨u, hu, rfl⟩ := Option.map_eq_some_iff.mp h
    have := (ih hu).1
    simp only [List.length_cons]
    omega
  | case3 => exact absurd h (by simp)
  | case4 => exact absurd h (by simp)
  | case5 c s hc ih =>
    obtain ⟨u, hu, rfl⟩ := Option.map_eq_some_iff.mp h
    obtain ⟨hle, hlt⟩ := ih hu
    refine ⟨by simpa using hle, fun hmem => ?_⟩
    rcases List.mem_cons.mp hmem with rfl | hmem
    · exact absurd rfl hc
    · simpa using hlt hmem

/-- **A string stays as it is exactly when it has neither `%` nor `+`.** -/
theorem queryUnescape_eq_self_iff {s : Bytes} :
    queryUnescape s = some s ↔ 0x25 ∉ s ∧ 0x2b ∉ s := by
  constructor
  · intro h
    have hpercent : 0x25 ∉ s := fun hmem => lt_irrefl _ ((length_queryUnescape h).2 hmem)
    refine ⟨hpercent, fun hplus => ?_⟩
    rw [queryUnescape_of_no_percent hpercent, Option.some.injEq] at h
    -- a `+` would have become a blank
    have hmem : (0x2b : UInt8) ∈ s.map fun c => if c = 0x2b then 0x20 else c := h.symm ▸ hplus
    obtain ⟨c, -, hc⟩ := List.mem_map.mp hmem
    split at hc
    · exact absurd hc (by decide)
    · contradiction
  · rintro ⟨hpercent, hplus⟩
    rw [queryUnescape_of_no_percent hpercent]
    congr 1
    refine (List.map_congr_left fun c hc => if_neg ?_).trans (List.map_id s)
    rintro rfl
    exact hplus hc

end QueryEscape
