import ObsidianVPN.Handshake.Cps
import ObsidianVPN.Lib.Decimal
import ObsidianVPN.Lib.TrimSpace

/-!
# The language of CPS

The strings that `ParseCPS` accepts are sequences of tags with white space around the tags and at the
ends of what stands in the brackets. The number of a random tag is added up in an `int` before its
range is checked; a number that does not fit may wrap around to one in range and is then accepted.

* `TagContent`, `Reads`: the content of a tag and a sequence of tags, with the lengths that a function
  gives to the numbers; `exactNum`, `wrapNum`: the number itself, and what `parseN` makes of it;
* `parseDigits_eq`, `parseN_ok_iff`, `parseTag_ok_iff`: one tag;
* **`parseCPS_ok_iff`**: the tokens of an accepted string;
* `Token.Piece`, `CPSSignature.Packet`: what a token generates; `packet_generate`;
* **`parseCPS_language`**: the strings of the language are accepted, and only a number that does not
  fit in an `int` lets another string pass.
-/

namespace ObsidianVPN.Handshake

open ByteStr GoString

/-! ## The language -/

/-- A character of hexadecimal. -/
def isHex (c : UInt8) : Bool := (fromHexChar c).isSome

/-- The digits of a string of hexadecimal digits and blanks. -/
def withoutBlanks (s : Bytes) : Bytes := s.filter fun c => decide (c ≠ 0x20)

/-- The content of a tag; `num` gives the length for a number. -/
inductive TagContent (num : ℕ → Option ℕ) : Bytes → Token → Prop where
  | time : TagContent num (ascii "t") .time
  | bytes {lead body data : Bytes} (hlead : lead = [] ∨ lead = ascii "0x")
      (hbody : ∀ c ∈ body, c = 0x20 ∨ isHex c = true) (heven : Even (withoutBlanks body).length)
      (hdata : hexDecode (withoutBlanks body) = some data) :
      TagContent num (ascii "b " ++ (lead ++ body)) (.bytes data)
  | rand {w digits : Bytes} {v n : ℕ} (hw : IsSpace w) (hdigits : Decimal.parseNat digits = some v)
      (hnum : num v = some n) : TagContent num (ascii "r " ++ (w ++ digits)) (.rand n)
  | randAlnum {w digits : Bytes} {v n : ℕ} (hw : IsSpace w)
      (hdigits : Decimal.parseNat digits = some v) (hnum : num v = some n) :
      TagContent num (ascii "rc " ++ (w ++ digits)) (.randAlnum n)
  | randDigit {w digits : Bytes} {v n : ℕ} (hw : IsSpace w)
      (hdigits : Decimal.parseNat digits = some v) (hnum : num v = some n) :
      TagContent num (ascii "rd " ++ (w ++ digits)) (.randDigit n)

/-- Tags with white space around them. The content of a tag does not end in white space: what follows
it in the brackets is cut off first. -/
inductive Reads (num : ℕ → Option ℕ) : Bytes → List Token → Prop where
  | nil {w : Bytes} (hw : IsSpace w) : Reads num w []
  | cons {w u core v rest : Bytes} {tok : Token} {toks : List Token} (hw : IsSpace w)
      (hu : IsSpace u) (hcore : TagContent num core tok) (hend : ∀ x ∈ spaces, ¬x <:+ core)
      (hv : IsSpace v) (hrest : Reads num rest toks) :
      Reads num (w ++ 0x3c :: ((u ++ (core ++ v)) ++ 0x3e :: rest)) (tok :: toks)

/-- A number between 1 and 65535. -/
def exactNum (v : ℕ) : Option ℕ := if 1 ≤ v ∧ v ≤ 65535 then some v else none

/-- The number as an `int`, if it is between 1 and 65535. -/
def wrapNum (v : ℕ) : Option ℕ :=
  if 1 ≤ wrap64 v ∧ wrap64 v ≤ 65535 then some (wrap64 v).toNat else none

/-! ## Numbers -/

section Number

theorem not_digit_iff (c : UInt8) : (c < 0x30 ∨ c > 0x39) ↔ ¬Decimal.isDigit c = true := by
  simp only [Decimal.isDigit, Bool.and_eq_true, decide_eq_true_eq, not_and_or, UInt8.not_le,
    gt_iff_lt]

theorem wrap64_step (x d : ℤ) : wrap64 (wrap64 x * 10 + d) = wrap64 (x * 10 + d) := by
  unfold wrap64
  rw [← Int.bmod_add_bmod, Int.bmod_mul_bmod, Int.bmod_add_bmod]

/-- The digits are added up modulo 2 ^ 64. -/
theorem parseDigits_eq (s : Bytes) (n : ℕ) :
    parseDigits (wrap64 n) s = if s.all Decimal.isDigit then
      some (wrap64 (s.foldl (fun n c => 10 * n + (c.toNat - 0x30)) n : ℕ)) else none := by
  induction s generalizing n with
  | nil => rfl
  | cons c s ih =>
    unfold parseDigits
    by_cases hc : Decimal.isDigit c = true
    · have hle : 0x30 ≤ c := by
        simp only [Decimal.isDigit, Bool.and_eq_true, decide_eq_true_eq] at hc
        exact hc.1
      have hval : (c - 0x30).toNat = c.toNat - 0x30 := UInt8.toNat_sub_of_le _ _ hle
      have hstep : wrap64 (wrap64 n * 10 + (c - 0x30).toNat)
          = wrap64 (10 * n + (c.toNat - 0x30) : ℕ) := by
        rw [wrap64_step, hval]
        congr 1
        push_cast
        ring
      rw [if_neg fun h => (not_digit_iff c).mp h hc, hstep, ih, List.all_cons, hc, Bool.true_and,
        List.foldl_cons]
    · rw [if_pos ((not_digit_iff c).mpr hc), List.all_cons, Bool.eq_false_iff.mpr hc]
      rfl

theorem visible_of_isDigit {c : UInt8} (h : Decimal.isDigit c = true) : Visible c := by
  simp only [Decimal.isDigit, Bool.and_eq_true, decide_eq_true_eq] at h
  exact visible_of_ascii ⟨UInt8.le_trans (by decide) h.1, UInt8.le_trans h.2 (by decide)⟩

/-- **The numbers that `parseN` accepts**, in a tag without white space at its end. -/
theorem parseN_ok_iff (tag : Bytes) {s : Bytes} (hend : ∀ x ∈ spaces, ¬x <:+ s) (n : ℕ) :
    parseN tag s = .ok n ↔ ∃ w digits v, IsSpace w ∧ Decimal.parseNat digits = some v ∧
      wrapNum v = some n ∧ s = w ++ digits := by
  have hdigits : ∀ d, parseDigits 0 d = if d.all Decimal.isDigit then
      some (wrap64 (Decimal.value d)) else none := fun d => parseDigits_eq d 0
  constructor
  · intro h
    obtain ⟨w, w', hw, hw', hs⟩ := trimSpace_spec s
    obtain rfl : w' = [] := by
      refine hw'.eq_nil fun x hx hsuf => hend x hx ?_
      rw [hs, ← List.append_assoc]
      exact hsuf.trans (List.suffix_append _ _)
    rw [List.append_nil] at hs
    simp only [parseN, hdigits] at h
    by_cases hall : (trimSpace s).all Decimal.isDigit = true
    · simp only [hall, if_true] at h
      split_ifs at h with hpos hlarge
      have hne : trimSpace s ≠ [] := fun hnil => hpos (by rw [hnil]; decide)
      refine ⟨w, trimSpace s, _, hw, if_pos ⟨hne, hall⟩, ?_, hs⟩
      rw [wrapNum, if_pos ⟨by omega, by omega⟩]
      exact congrArg some (Except.ok.inj h)
    · simp [hall] at h
  · rintro ⟨w, digits, v, hw, hv, hn, rfl⟩
    unfold Decimal.parseNat at hv
    split at hv
    · rename_i hdig
      obtain ⟨hne, hall⟩ := hdig
      obtain rfl := Option.some.inj hv
      have hdigEnd : ∀ x ∈ spaces, ¬x <:+ digits := fun x hx hsuf =>
        hend x hx (hsuf.trans (List.suffix_append _ _))
      have htrim : trimSpace (w ++ digits) = digits := by
        obtain ⟨c, m, rfl⟩ := List.exists_cons_of_ne_nil hne
        have hc : Decimal.isDigit c = true := List.all_eq_true.mp hall c List.mem_cons_self
        have hcut := trimSpace_append hw IsSpace.nil (visible_of_isDigit hc) hdigEnd
        rwa [List.append_nil] at hcut
      unfold wrapNum at hn
      split at hn
      · rename_i hrange
        simp only [parseN, htrim, hdigits, hall, if_true]
        rw [if_neg (by omega), if_neg (by omega)]
        exact congrArg Except.ok (Option.some.inj hn)
      · cases hn
    · cases hv

end Number

/-! ## Tags -/

section Tag

theorem hexDecode_some {s data : Bytes} (h : hexDecode s = some data) :
    (∀ c ∈ s, isHex c = true) ∧ Even s.length := by
  fun_induction hexDecode s generalizing data with
  | case1 => exact ⟨by simp, by simp⟩
  | case2 => cases h
  | case3 a b s ih =>
    simp only [Option.bind_eq_bind, Option.bind_eq_some_iff] at h
    obtain ⟨hi, ha, lo, hb, rest, hrest, _⟩ := h
    obtain ⟨hs, heven⟩ := ih hrest
    refine ⟨List.forall_mem_cons.mpr ⟨by rw [isHex, ha]; rfl, ?_⟩, ?_⟩
    · exact List.forall_mem_cons.mpr ⟨by rw [isHex, hb]; rfl, hs⟩
    · simpa [Nat.even_add_one] using heven

/-- `parseTag` behind the first trimming. -/
def parseContent (tag : Bytes) : Except CPSError Token :=
  if tag = ascii "t" then .ok .time
  else if (ascii "b ").isPrefixOf tag then
    let hexStr := tag.drop 2
    let hexStr := if (ascii "0x").isPrefixOf hexStr then hexStr.drop 2 else hexStr
    match hexDecode (withoutBlanks hexStr) with
    | some b => .ok (.bytes b)
    | none => .error (.invalidHex (withoutBlanks hexStr))
  else if (ascii "rc ").isPrefixOf tag then (parseN (ascii "rc") (tag.drop 3)).map .randAlnum
  else if (ascii "rd ").isPrefixOf tag then (parseN (ascii "rd") (tag.drop 3)).map .randDigit
  else if (ascii "r ").isPrefixOf tag then (parseN (ascii "r") (tag.drop 2)).map .rand
  else .error (.unknownTag tag)

theorem parseTag_eq (tag : Bytes) : parseTag tag = parseContent (trimSpace tag) := rfl

theorem map_ok_iff {α β : Type*} {e : Except CPSError α} {f : α → β} {b : β} :
    e.map f = .ok b ↔ ∃ a, e = .ok a ∧ f a = b := by
  cases e with
  | error => simp [Except.map]
  | ok a => simp [Except.map]

theorem drop_of_isPrefixOf {p s : Bytes} (h : p.isPrefixOf s = true) :
    s = p ++ s.drop p.length := by
  obtain ⟨t, rfl⟩ := List.isPrefixOf_iff_prefix.mp h
  rw [List.drop_left]

theorem isPrefixOf_append (p s : Bytes) : p.isPrefixOf (p ++ s) = true :=
  List.isPrefixOf_iff_prefix.mpr (List.prefix_append _ _)

theorem ascii_b : ascii "b " = [0x62, 0x20] := by decide +kernel

theorem ascii_r : ascii "r " = [0x72, 0x20] := by decide +kernel

theorem ascii_rc : ascii "rc " = [0x72, 0x63, 0x20] := by decide +kernel

theorem ascii_rd : ascii "rd " = [0x72, 0x64, 0x20] := by decide +kernel

theorem ascii_t : ascii "t" = [0x74] := by decide +kernel

theorem ascii_0x : ascii "0x" = [0x30, 0x78] := by decide +kernel

/-- A random tag: the letters, a blank and the number. -/
theorem map_parseN_ok_iff (tag : Bytes) {lead core : Bytes} (hlead : lead.isPrefixOf core = true)
    (hend : ∀ x ∈ spaces, ¬x <:+ core) (f : ℕ → Token) (tok : Token) :
    (parseN tag (core.drop lead.length)).map f = .ok tok ↔ ∃ w digits v n, IsSpace w ∧
      Decimal.parseNat digits = some v ∧ wrapNum v = some n ∧ core = lead ++ (w ++ digits) ∧
      f n = tok := by
  have hcore := drop_of_isPrefixOf hlead
  have hdrop : ∀ x ∈ spaces, ¬x <:+ core.drop lead.length := fun x hx hsuf =>
    hend x hx (hsuf.trans (List.drop_suffix _ _))
  rw [map_ok_iff]
  constructor
  · rintro ⟨n, hN, hf⟩
    obtain ⟨w, digits, v, hw, hv, hn, hs⟩ := (parseN_ok_iff tag hdrop n).mp hN
    exact ⟨w, digits, v, n, hw, hv, hn, by rw [← hs, ← hcore], hf⟩
  · rintro ⟨w, digits, v, n, hw, hv, hn, rfl, hf⟩
    exact ⟨n, (parseN_ok_iff tag hdrop n).mpr ⟨w, digits, v, hw, hv, hn, List.drop_left⟩, hf⟩

/-- The digits of a byte tag come behind `0x`, if that is there. -/
theorem exists_hexLead (s : Bytes) : ∃ lead, (lead = [] ∨ lead = ascii "0x") ∧
    s = lead ++ if (ascii "0x").isPrefixOf s then s.drop 2 else s := by
  by_cases hx : (ascii "0x").isPrefixOf s = true
  · refine ⟨ascii "0x", .inr rfl, ?_⟩
    rw [if_pos hx]
    exact drop_of_isPrefixOf hx
  · refine ⟨[], .inl rfl, ?_⟩
    rw [if_neg hx]
    rfl

theorem drop_hexLead {lead body : Bytes} (hlead : lead = [] ∨ lead = ascii "0x")
    (hbody : ∀ c ∈ body, c = 0x20 ∨ isHex c = true) :
    (if (ascii "0x").isPrefixOf (lead ++ body) then (lead ++ body).drop 2 else lead ++ body)
      = body := by
  rcases hlead with rfl | rfl
  · -- a body has no `x`
    refine if_neg fun hx => ?_
    obtain ⟨t, ht⟩ := List.isPrefixOf_iff_prefix.mp hx
    have hmem : (0x78 : UInt8) ∈ body := by
      rw [List.nil_append] at ht
      rw [← ht, ascii_0x]
      simp
    rcases hbody 0x78 hmem with h | h
    · cases h
    · cases h
  · rw [if_pos (isPrefixOf_append _ _)]
    rfl

theorem content_of_parseContent {core : Bytes} {tok : Token} (hend : ∀ x ∈ spaces, ¬x <:+ core)
    (h : parseContent core = .ok tok) : TagContent wrapNum core tok := by
  unfold parseContent at h
  split at h
  · rename_i ht
    cases h
    exact ht ▸ .time
  split at h
  · rename_i hb
    have hcore : core = ascii "b " ++ core.drop 2 := drop_of_isPrefixOf hb
    obtain ⟨lead, hlead, hbody⟩ := exists_hexLead (core.drop 2)
    rw [hbody] at hcore
    dsimp only at h
    split at h
    · rename_i data hdata
      cases h
      obtain ⟨hhex, heven⟩ := hexDecode_some hdata
      rw [hcore]
      refine .bytes hlead (fun c hc => ?_) heven hdata
      by_cases hblank : c = 0x20
      · exact .inl hblank
      · exact .inr (hhex c (List.mem_filter.mpr ⟨hc, decide_eq_true hblank⟩))
    · cases h
  split at h
  · rename_i hrc
    obtain ⟨w, digits, v, n, hw, hv, hn, rfl, rfl⟩ := (map_parseN_ok_iff _ hrc hend _ _).mp h
    exact .randAlnum hw hv hn
  split at h
  · rename_i hrd
    obtain ⟨w, digits, v, n, hw, hv, hn, rfl, rfl⟩ := (map_parseN_ok_iff _ hrd hend _ _).mp h
    exact .randDigit hw hv hn
  split at h
  · rename_i hr
    obtain ⟨w, digits, v, n, hw, hv, hn, rfl, rfl⟩ := (map_parseN_ok_iff _ hr hend _ _).mp h
    exact .rand hw hv hn
  · cases h

theorem parseContent_of_content {core : Bytes} {tok : Token} (hend : ∀ x ∈ spaces, ¬x <:+ core)
    (h : TagContent wrapNum core tok) : parseContent core = .ok tok := by
  cases h with
  | time => rfl
  | @bytes lead body data hlead hbody heven hdata =>
    have ht : ascii "b " ++ (lead ++ body) ≠ ascii "t" := by simp [ascii_b, ascii_t]
    have hdrop : (ascii "b " ++ (lead ++ body)).drop 2 = lead ++ body := rfl
    rw [parseContent, if_neg ht, if_pos (isPrefixOf_append _ _)]
    simp only [hdrop, drop_hexLead hlead hbody, hdata]
  | @rand w digits v n hw hv hn =>
    have hothers : ascii "r " ++ (w ++ digits) ≠ ascii "t" ∧
        ¬(ascii "b ").isPrefixOf (ascii "r " ++ (w ++ digits)) = true ∧
        ¬(ascii "rc ").isPrefixOf (ascii "r " ++ (w ++ digits)) = true ∧
        ¬(ascii "rd ").isPrefixOf (ascii "r " ++ (w ++ digits)) = true := by
      simp [ascii_t, ascii_b, ascii_r, ascii_rc, ascii_rd, List.isPrefixOf]
    obtain ⟨ht, hb, hrc, hrd⟩ := hothers
    rw [parseContent, if_neg ht, if_neg hb, if_neg hrc, if_neg hrd,
      if_pos (isPrefixOf_append _ _)]
    exact (map_parseN_ok_iff (ascii "r") (isPrefixOf_append _ _) hend _ _).mpr
      ⟨w, digits, v, n, hw, hv, hn, rfl, rfl⟩
  | @randAlnum w digits v n hw hv hn =>
    have hothers : ascii "rc " ++ (w ++ digits) ≠ ascii "t" ∧
        ¬(ascii "b ").isPrefixOf (ascii "rc " ++ (w ++ digits)) = true := by
      simp [ascii_t, ascii_b, ascii_rc, List.isPrefixOf]
    obtain ⟨ht, hb⟩ := hothers
    rw [parseContent, if_neg ht, if_neg hb, if_pos (isPrefixOf_append _ _)]
    exact (map_parseN_ok_iff (ascii "rc") (isPrefixOf_append _ _) hend _ _).mpr
      ⟨w, digits, v, n, hw, hv, hn, rfl, rfl⟩
  | @randDigit w digits v n hw hv hn =>
    have hothers : ascii "rd " ++ (w ++ digits) ≠ ascii "t" ∧
        ¬(ascii "b ").isPrefixOf (ascii "rd " ++ (w ++ digits)) = true ∧
        ¬(ascii "rc ").isPrefixOf (ascii "rd " ++ (w ++ digits)) = true := by
      simp [ascii_t, ascii_b, ascii_rc, ascii_rd, List.isPrefixOf]
    obtain ⟨ht, hb, hrc⟩ := hothers
    rw [parseContent, if_neg ht, if_neg hb, if_neg hrc, if_pos (isPrefixOf_append _ _)]
    exact (map_parseN_ok_iff (ascii "rd") (isPrefixOf_append _ _) hend _ _).mpr
      ⟨w, digits, v, n, hw, hv, hn, rfl, rfl⟩

/-- A content begins with a letter and has no bracket. -/
theorem TagContent.visible {num : ℕ → Option ℕ} {core : Bytes} {tok : Token}
    (h : TagContent num core tok) : ∃ c m, core = c :: m ∧ Visible c := by
  cases h with
  | time => exact ⟨0x74, [], ascii_t, visible_of_ascii (by decide)⟩
  | bytes => exact ⟨0x62, _, by rw [ascii_b]; rfl, visible_of_ascii (by decide)⟩
  | rand => exact ⟨0x72, _, by rw [ascii_r]; rfl, visible_of_ascii (by decide)⟩
  | randAlnum => exact ⟨0x72, _, by rw [ascii_rc]; rfl, visible_of_ascii (by decide)⟩
  | randDigit => exact ⟨0x72, _, by rw [ascii_rd]; rfl, visible_of_ascii (by decide)⟩

theorem visible_bracket : Visible 0x3c ∧ Visible 0x3e :=
  ⟨visible_of_ascii (by decide), visible_of_ascii (by decide)⟩

theorem bracket_not_mem_digits {digits : Bytes} {v : ℕ} (h : Decimal.parseNat digits = some v) :
    (0x3e : UInt8) ∉ digits := by
  intro hmem
  unfold Decimal.parseNat at h
  split at h
  · rename_i hdig
    exact absurd (List.all_eq_true.mp hdig.2 _ hmem) (by decide)
  · cases h

theorem TagContent.bracket_not_mem {num : ℕ → Option ℕ} {core : Bytes} {tok : Token}
    (h : TagContent num core tok) : (0x3e : UInt8) ∉ core := by
  cases h with
  | time => rw [ascii_t]; decide
  | @bytes lead body data hlead hbody heven hdata =>
    have hlead' : (0x3e : UInt8) ∉ lead := by
      rcases hlead with rfl | rfl
      · simp
      · rw [ascii_0x]; decide
    have hbody' : (0x3e : UInt8) ∉ body := fun hmem => by
      rcases hbody _ hmem with h | h <;> cases h
    simp [ascii_b, hlead', hbody']
  | rand hw hv _ =>
    simp [ascii_r, hw.not_mem visible_bracket.2, bracket_not_mem_digits hv]
  | randAlnum hw hv _ =>
    simp [ascii_rc, hw.not_mem visible_bracket.2, bracket_not_mem_digits hv]
  | randDigit hw hv _ =>
    simp [ascii_rd, hw.not_mem visible_bracket.2, bracket_not_mem_digits hv]

/-- **The tags that `parseTag` accepts.** -/
theorem parseTag_ok_iff (tag : Bytes) (tok : Token) :
    parseTag tag = .ok tok ↔ ∃ u core v, IsSpace u ∧ TagContent wrapNum core tok ∧
      (∀ x ∈ spaces, ¬x <:+ core) ∧ IsSpace v ∧ tag = u ++ (core ++ v) := by
  rw [parseTag_eq]
  constructor
  · intro h
    obtain ⟨u, v, hu, hv, htag⟩ := trimSpace_spec tag
    have hend := trimSpace_end tag
    exact ⟨u, trimSpace tag, v, hu, content_of_parseContent hend h, hend, hv, htag⟩
  · rintro ⟨u, core, v, hu, hcore, hend, hv, rfl⟩
    have htrim : trimSpace (u ++ (core ++ v)) = core := by
      obtain ⟨c, m, rfl, hc⟩ := hcore.visible
      exact trimSpace_append hu hv hc hend
    rw [htrim]
    exact parseContent_of_content hend hcore

end Tag

/-! ## Sequences of tags -/

section Sequence

theorem split_at_bracket {s : Bytes} (h : (0x3e : UInt8) ∈ s) :
    s = (s.takeWhile fun b => decide (b ≠ 0x3e)) ++
      0x3e :: s.drop ((s.takeWhile fun b => decide (b ≠ 0x3e)).length + 1) := by
  induction s with
  | nil => cases h
  | cons c s ih =>
    by_cases hc : c = 0x3e
    · subst hc
      simp
    · have hs : (0x3e : UInt8) ∈ s := by simpa [Ne.symm hc] using h
      have hrest := ih hs
      simp only [List.takeWhile_cons, hc, ne_eq, not_false_eq_true, decide_true, if_true,
        List.length_cons, List.drop_succ_cons, List.cons_append] at hrest ⊢
      rw [← hrest]

theorem takeWhile_bracket {tag rest : Bytes} (h : (0x3e : UInt8) ∉ tag) :
    (tag ++ 0x3e :: rest).takeWhile (fun b => decide (b ≠ 0x3e)) = tag := by
  have hall : ∀ b ∈ tag, decide (b ≠ 0x3e) = true := fun b hb =>
    decide_eq_true fun hb' => h (hb' ▸ hb)
  rw [List.takeWhile_append_of_pos hall]
  simp

/-- What the loop accepts is a sequence of tags, whatever white space is around it. -/
theorem reads_of_parseTags {fuel : ℕ} {t : Bytes} {toks : List Token}
    (h : parseTags fuel t = .ok toks) {w w' : Bytes} (hw : IsSpace w) (hw' : IsSpace w') :
    Reads wrapNum (w ++ (t ++ w')) toks := by
  induction fuel generalizing t toks w w' with
  | zero =>
    cases t with
    | nil =>
      cases h
      exact .nil (hw.append hw')
    | cons => cases h
  | succ fuel ih =>
    cases t with
    | nil =>
      cases h
      exact .nil (hw.append hw')
    | cons c rest =>
      simp only [parseTags] at h
      split_ifs at h with hc hbracket
      obtain rfl : c = 0x3c := not_not.mp hc
      have hsplit := split_at_bracket hbracket
      generalize (rest.takeWhile fun b => decide (b ≠ 0x3e)) = tag at h hsplit
      generalize rest.drop (tag.length + 1) = after at h hsplit
      split at h
      · cases h
      · rename_i tok htok
        split at h
        · cases h
        · rename_i toks' htoks
          cases h
          obtain ⟨u, core, v, hu, hcore, hend, hv, rfl⟩ := (parseTag_ok_iff tag tok).mp htok
          obtain ⟨x, y, hx, hy, hafter⟩ := trimSpace_spec after
          have hrest := Reads.cons hw hu hcore hend hv (ih htoks hx (hy.append hw'))
          have hjoin : x ++ (trimSpace after ++ (y ++ w')) = after ++ w' := by
            conv_rhs => rw [hafter]
            simp only [List.append_assoc]
          rw [hjoin] at hrest
          rw [hsplit]
          simpa using hrest

theorem parseTags_of_reads {s : Bytes} {toks : List Token} (h : Reads wrapNum s toks) {fuel : ℕ}
    (hfuel : (trimSpace s).length ≤ fuel) : parseTags fuel (trimSpace s) = .ok toks := by
  induction h generalizing fuel with
  | nil hw =>
    rw [trimSpace_space hw]
    cases fuel <;> rfl
  | @cons w u core v rest tok toks hw hu hcore hend hv hrest ih =>
    rw [trimSpace_between hw visible_bracket.1 visible_bracket.2] at hfuel ⊢
    have hbracket : (0x3e : UInt8) ∉ u ++ (core ++ v) := by
      simp [hu.not_mem visible_bracket.2, hv.not_mem visible_bracket.2, hcore.bracket_not_mem]
    have htag : parseTag (u ++ (core ++ v)) = .ok tok :=
      (parseTag_ok_iff _ _).mpr ⟨u, core, v, hu, hcore, hend, hv, rfl⟩
    obtain ⟨fuel, rfl⟩ : ∃ n, fuel = n + 1 := by
      rw [List.length_cons] at hfuel
      exact ⟨fuel - 1, by omega⟩
    have hdrop : ((u ++ (core ++ v)) ++ 0x3e :: trimRight rest).drop
        ((u ++ (core ++ v)).length + 1) = trimRight rest := by
      rw [List.drop_length_add_append]
      rfl
    have hnext : parseTags fuel (trimSpace (trimRight rest)) = .ok toks := by
      have hlen := length_trimSpace_le (trimRight rest)
      rw [trimSpace_trimRight] at hlen ⊢
      refine ih (hlen.trans ?_)
      simp only [List.length_cons, List.length_append] at hfuel
      omega
    have hmem : ¬(0x3e : UInt8) ∉ (u ++ (core ++ v)) ++ 0x3e :: trimRight rest := by simp
    rw [parseTags, if_neg (not_not.mpr rfl), if_neg hmem]
    simp only [takeWhile_bracket hbracket, hdrop, htag, hnext]

/-- **The strings that `ParseCPS` accepts, with their tokens.** -/
theorem parseCPS_ok_iff (s : Bytes) (sig : CPSSignature) :
    parseCPS s = .ok sig ↔ sig.raw = s ∧ sig.tokens ≠ [] ∧ Reads wrapNum s sig.tokens := by
  unfold parseCPS
  constructor
  · intro h
    obtain ⟨w, w', hw, hw', hs⟩ := trimSpace_spec s
    dsimp only at h
    split at h
    · cases h
    · cases h
    · rename_i toks hne htoks
      cases h
      have hreads := reads_of_parseTags htoks hw hw'
      rw [← hs] at hreads
      exact ⟨rfl, hne, hreads⟩
  · rintro ⟨rfl, hne, hreads⟩
    have htags := parseTags_of_reads hreads le_rfl
    obtain ⟨tokens, raw⟩ := sig
    dsimp only at hne htags ⊢
    rw [htags]
    cases tokens with
    | nil => exact absurd rfl hne
    | cons => rfl

end Sequence

/-! ## Packets -/

/-- What a token generates. -/
def Token.Piece : Token → Bytes → Prop
  | .bytes data, piece => piece = data
  | .time, piece => piece.length = 4
  | .rand n, piece => piece.length = n
  | .randAlnum n, piece => piece.length = n ∧ ∀ c ∈ piece, c ∈ alnumChars
  | .randDigit n, piece => piece.length = n ∧ ∀ c ∈ piece, c ∈ digitChars

/-- A packet is made of the pieces of its tokens, one behind the other. -/
def CPSSignature.Packet (sig : CPSSignature) (packet : Bytes) : Prop :=
  ∃ pieces, List.Forall₂ Token.Piece sig.tokens pieces ∧ packet = pieces.flatten ∧
    packet.length = (sig.tokens.map Token.size).sum

theorem mem_randomCharset {n : ℕ} {charset : Bytes} {rb : ℕ → UInt8} (hne : charset ≠ []) :
    ∀ c ∈ randomCharset n charset rb, c ∈ charset := by
  intro c hc
  obtain ⟨b, _, rfl⟩ := List.mem_map.mp hc
  have hlt : b.toNat % charset.length < charset.length :=
    Nat.mod_lt _ (List.length_pos_of_ne_nil hne)
  rw [List.getD_eq_getElem _ _ hlt]
  exact List.getElem_mem hlt

theorem Token.piece_generate (now : ℤ) (rb : ℕ → UInt8) (tok : Token) :
    tok.Piece (tok.generate now rb) := by
  have hlen := tok.length_generate now rb
  cases tok with
  | bytes data => rfl
  | time => exact hlen
  | rand n => exact hlen
  | randAlnum n => exact ⟨hlen, mem_randomCharset (by decide +kernel)⟩
  | randDigit n => exact ⟨hlen, mem_randomCharset (by decide +kernel)⟩

theorem pieces_generateTokens (now : ℤ) (rb : ℕ → ℕ → UInt8) (i : ℕ) (toks : List Token) :
    ∃ pieces, List.Forall₂ Token.Piece toks pieces ∧
      generateTokens now rb i toks = pieces.flatten := by
  induction toks generalizing i with
  | nil => exact ⟨[], .nil, rfl⟩
  | cons tok toks ih =>
    obtain ⟨pieces, hpieces, hgen⟩ := ih (i + 1)
    exact ⟨_ :: pieces, .cons (tok.piece_generate now (rb i)) hpieces, by
      rw [generateTokens, hgen, List.flatten_cons]⟩

theorem CPSSignature.packet_generate (sig : CPSSignature) (now : ℤ) (rb : ℕ → ℕ → UInt8) :
    sig.Packet (sig.generate now rb) := by
  obtain ⟨pieces, hpieces, hgen⟩ := pieces_generateTokens now rb 0 sig.tokens
  exact ⟨pieces, hpieces, hgen, sig.length_generate now rb⟩

/-! ## The result -/

/-- A non-empty sequence of tags with numbers between 1 and 65535. -/
def CPSLanguage (s : Bytes) : Prop := ∃ toks, toks ≠ [] ∧ Reads exactNum s toks

/-- The token stands for a number that does not fit in an `int` and wraps around to one between 1
and 65535. -/
def Token.Big (tok : Token) : Prop :=
  ∃ n : ℕ, 2 ^ 63 ≤ n ∧ (1 ≤ wrap64 n ∧ wrap64 n ≤ 65535) ∧
    (tok = .rand n ∨ tok = .randAlnum n ∨ tok = .randDigit n)

/-- A sequence of tags with numbers of any size, one of which wraps around into the range. -/
def Overflows (s : Bytes) : Prop := ∃ toks, Reads some s toks ∧ ∃ tok ∈ toks, tok.Big

section Result

variable {s core : Bytes} {tok : Token} {toks : List Token}

theorem TagContent.mono {num num' : ℕ → Option ℕ} (h : TagContent num core tok)
    (hnum : ∀ v n, num v = some n → num' v = some n) : TagContent num' core tok := by
  cases h with
  | time => exact .time
  | bytes hlead hbody heven hdata => exact .bytes hlead hbody heven hdata
  | rand hw hv hn => exact .rand hw hv (hnum _ _ hn)
  | randAlnum hw hv hn => exact .randAlnum hw hv (hnum _ _ hn)
  | randDigit hw hv hn => exact .randDigit hw hv (hnum _ _ hn)

theorem Reads.mono {num num' : ℕ → Option ℕ} (h : Reads num s toks)
    (hnum : ∀ v n, num v = some n → num' v = some n) : Reads num' s toks := by
  induction h with
  | nil hw => exact .nil hw
  | cons hw hu hcore hend hv _ ih => exact .cons hw hu (hcore.mono hnum) hend hv ih

theorem wrapNum_of_exactNum (v n : ℕ) (h : exactNum v = some n) : wrapNum v = some n := by
  unfold exactNum at h
  split at h
  · rename_i hv
    have hwrap : wrap64 v = v := wrap64_of_bounds (by omega) (by omega)
    rw [wrapNum, hwrap, if_pos (by omega), Int.toNat_natCast]
    exact h
  · cases h

/-- A number that fits is not changed. -/
theorem exactNum_of_wrapNum {v n : ℕ} (h : wrapNum v = some n) (hv : v < 2 ^ 63) :
    exactNum v = some n := by
  have hwrap : wrap64 v = v := wrap64_of_bounds (by omega) (by omega)
  rw [wrapNum, hwrap, Int.toNat_natCast] at h
  split at h
  · rename_i hrange
    rw [exactNum, if_pos (by omega)]
    exact h
  · cases h

theorem wrap64_of_wrapNum {v n : ℕ} (h : wrapNum v = some n) :
    1 ≤ wrap64 v ∧ wrap64 v ≤ 65535 := by
  unfold wrapNum at h
  split at h
  · assumption
  · cases h

/-- A tag that is accepted has a number in range, or one that does not fit. -/
theorem TagContent.exact_or_big (h : TagContent wrapNum core tok) :
    TagContent exactNum core tok ∧ (∃ tok', TagContent some core tok') ∨
      ∃ tok', TagContent some core tok' ∧ tok'.Big := by
  cases h with
  | time => exact .inl ⟨.time, _, .time⟩
  | bytes hlead hbody heven hdata =>
    exact .inl ⟨.bytes hlead hbody heven hdata, _, .bytes hlead hbody heven hdata⟩
  | @rand w digits v n hw hv hn =>
    rcases lt_or_ge v (2 ^ 63) with hfit | hbig
    · exact .inl ⟨.rand hw hv (exactNum_of_wrapNum hn hfit), _, .rand hw hv rfl⟩
    · exact .inr ⟨_, .rand hw hv rfl, v, hbig, wrap64_of_wrapNum hn, .inl rfl⟩
  | @randAlnum w digits v n hw hv hn =>
    rcases lt_or_ge v (2 ^ 63) with hfit | hbig
    · exact .inl ⟨.randAlnum hw hv (exactNum_of_wrapNum hn hfit), _, .randAlnum hw hv rfl⟩
    · exact .inr ⟨_, .randAlnum hw hv rfl, v, hbig, wrap64_of_wrapNum hn, .inr (.inl rfl)⟩
  | @randDigit w digits v n hw hv hn =>
    rcases lt_or_ge v (2 ^ 63) with hfit | hbig
    · exact .inl ⟨.randDigit hw hv (exactNum_of_wrapNum hn hfit), _, .randDigit hw hv rfl⟩
    · exact .inr ⟨_, .randDigit hw hv rfl, v, hbig, wrap64_of_wrapNum hn, .inr (.inr rfl)⟩

theorem Reads.exact_or_overflows (h : Reads wrapNum s toks) :
    Reads exactNum s toks ∧ (∃ toks', Reads some s toks') ∨ Overflows s := by
  induction h with
  | nil hw => exact .inl ⟨.nil hw, _, .nil hw⟩
  | cons hw hu hcore hend hv _ ih =>
    rcases hcore.exact_or_big with ⟨hexact, tok', hany⟩ | ⟨tok', hany, hbig⟩
    · rcases ih with ⟨hrest, toks', hanys⟩ | ⟨toks', hanys, tok, htok, hbig⟩
      · exact .inl ⟨.cons hw hu hexact hend hv hrest, _, .cons hw hu hany hend hv hanys⟩
      · exact .inr ⟨_, .cons hw hu hany hend hv hanys, tok, List.mem_cons_of_mem _ htok, hbig⟩
    · rcases ih with ⟨_, toks', hanys⟩ | ⟨toks', hanys, _⟩
      · exact .inr ⟨_, .cons hw hu hany hend hv hanys, tok', List.mem_cons_self, hbig⟩
      · exact .inr ⟨_, .cons hw hu hany hend hv hanys, tok', List.mem_cons_self, hbig⟩

/-- **The language of CPS.** Its strings are accepted; what is accepted is in the language with the
tokens found, unless a number wraps around into the range; and the packets are made as the tokens say. -/
theorem parseCPS_language (s : Bytes) :
    (CPSLanguage s → ∃ sig, parseCPS s = .ok sig) ∧
    ∀ sig, parseCPS s = .ok sig →
      (sig.tokens ≠ [] ∧ Reads exactNum s sig.tokens ∨ Overflows s) ∧
      ∀ now rb, sig.Packet (sig.generate now rb) := by
  constructor
  · rintro ⟨toks, hne, hreads⟩
    exact ⟨⟨toks, s⟩, (parseCPS_ok_iff s _).mpr ⟨rfl, hne, hreads.mono wrapNum_of_exactNum⟩⟩
  · intro sig hsig
    obtain ⟨_, hne, hreads⟩ := (parseCPS_ok_iff s sig).mp hsig
    refine ⟨?_, sig.packet_generate⟩
    rcases hreads.exact_or_overflows with ⟨hexact, _⟩ | hover
    · exact .inl ⟨hne, hexact⟩
    · exact .inr hover

end Result

/-! ## Tags as they are written -/

/-- Tags with white space between them and just inside the brackets only. -/
inductive Written : Bytes → Prop where
  | one {u core v : Bytes} {tok : Token} (hu : IsSpace u) (hcore : TagContent exactNum core tok)
      (hv : IsSpace v) : Written (0x3c :: (u ++ (core ++ (v ++ [0x3e]))))
  | cons {u core v w rest : Bytes} {tok : Token} (hu : IsSpace u)
      (hcore : TagContent exactNum core tok) (hv : IsSpace v) (hw : IsSpace w)
      (hrest : Written rest) : Written (0x3c :: (u ++ (core ++ (v ++ 0x3e :: (w ++ rest)))))

/-- White space in front of the first tag is accepted, and `<b >` is the unknown tag `b`. -/
theorem written_not_exact :
    (parseCPS (ascii " <t>")).isOk = true ∧ ¬Written (ascii " <t>") ∧
      (parseCPS (ascii "<b >")).isOk = false ∧ Written (ascii "<b >") := by
  have hblank : ascii " <t>" = [0x20, 0x3c, 0x74, 0x3e] := by decide +kernel
  have hb : ascii "<b >" = 0x3c :: ([] ++ ((ascii "b " ++ ([] ++ [])) ++ ([] ++ [0x3e]))) := by
    decide +kernel
  refine ⟨by decide +kernel, ?_, by decide +kernel, ?_⟩
  · rw [hblank]
    intro h
    cases h
  · rw [hb]
    exact .one IsSpace.nil (.bytes (.inl rfl) (by simp) (by decide) rfl) IsSpace.nil

/-- The number 2 ^ 64 + 1 is taken for 1. -/
example : parseCPS (ascii "<r 18446744073709551617>")
    = .ok ⟨[.rand 1], ascii "<r 18446744073709551617>"⟩ := by decide +kernel

end ObsidianVPN.Handshake
