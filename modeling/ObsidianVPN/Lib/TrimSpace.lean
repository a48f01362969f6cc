import ObsidianVPN.Lib.GoString

/-!
# White space at the ends of a string

The encodings of the white space characters are a prefix code, read forwards and backwards, so that
the white space at an end of a string can be cut off in one way only.

* `trimFront_spec`, `trimFront_eq`: what `trimFront` cuts off, for any prefix code;
* `IsSpace`: a string of white space; `trimLeft`, `trimRight`: the two halves of `trimSpace`;
* `trimSpace_spec`: a string is its trimmed form with white space around it;
* **`trimSpace_trimRight`**, `trimSpace_trimSpace`: trimming in steps;
* `Visible`: a byte that is in no white space; **`trimSpace_append`**, `trimSpace_between`,
  `trimSpace_eq_self`: what visible bytes keep.
-/

namespace GoString

open ByteStr

/-! ## Prefix codes -/

/-- No string of `ws` is empty or the beginning of another one. -/
structure PrefixCode (ws : List Bytes) : Prop where
  ne_nil : ∀ x ∈ ws, x ≠ []
  eq_of_prefix : ∀ x ∈ ws, ∀ y ∈ ws, x <+: y → x = y

section Front

variable {ws : List Bytes}

theorem mem_prefix_of_find {s x : Bytes} (h : (ws.find? fun w => w.isPrefixOf s) = some x) :
    x ∈ ws ∧ x <+: s := by
  have hpre := List.find?_some h
  exact ⟨List.mem_of_find?_eq_some h, List.isPrefixOf_iff_prefix.mp hpre⟩

theorem trimFront_of_none {s : Bytes} (h : ∀ x ∈ ws, ¬x <+: s) (fuel : ℕ) :
    trimFront ws fuel s = s := by
  cases fuel with
  | zero => rfl
  | succ fuel =>
    have hnone : (ws.find? fun w => w.isPrefixOf s) = none :=
      List.find?_eq_none.mpr fun x hx hpre => h x hx (List.isPrefixOf_iff_prefix.mp hpre)
    rw [trimFront, hnone]

/-- What is cut off is a sequence of strings of `ws`, and none is left in front. -/
theorem trimFront_spec (hws : PrefixCode ws) {fuel : ℕ} {s : Bytes} (h : s.length ≤ fuel) :
    (∃ l : List Bytes, (∀ x ∈ l, x ∈ ws) ∧ s = l.flatten ++ trimFront ws fuel s) ∧
      ∀ x ∈ ws, ¬x <+: trimFront ws fuel s := by
  induction fuel generalizing s with
  | zero =>
    have hs : s = [] := List.eq_nil_of_length_eq_zero (Nat.le_zero.mp h)
    subst hs
    exact ⟨⟨[], by simp, rfl⟩, fun x hx hpre => hws.ne_nil x hx (List.prefix_nil.mp hpre)⟩
  | succ fuel ih =>
    cases hfind : ws.find? fun w => w.isPrefixOf s with
    | none =>
      rw [trimFront, hfind]
      refine ⟨⟨[], by simp, rfl⟩, fun x hx hpre => ?_⟩
      exact List.find?_eq_none.mp hfind x hx (List.isPrefixOf_iff_prefix.mpr hpre)
    | some x =>
      obtain ⟨hx, t, rfl⟩ := mem_prefix_of_find hfind
      have hpos := List.length_pos_of_ne_nil (hws.ne_nil x hx)
      rw [List.length_append] at h
      obtain ⟨⟨l, hl, ht⟩, hnone⟩ := ih (s := t) (by omega)
      have hstep : trimFront ws (fuel + 1) (x ++ t) = trimFront ws fuel t := by
        simp only [trimFront, hfind, List.drop_left]
      rw [hstep]
      refine ⟨⟨x :: l, ?_, ?_⟩, hnone⟩
      · exact List.forall_mem_cons.mpr ⟨hx, hl⟩
      · rw [List.flatten_cons, List.append_assoc, ← ht]

/-- There is one way to cut. -/
theorem trimFront_eq (hws : PrefixCode ws) {l : List Bytes} (hl : ∀ x ∈ l, x ∈ ws) {t : Bytes}
    (ht : ∀ x ∈ ws, ¬x <+: t) {fuel : ℕ} (hfuel : (l.flatten ++ t).length ≤ fuel) :
    trimFront ws fuel (l.flatten ++ t) = t := by
  induction l generalizing fuel with
  | nil => exact trimFront_of_none ht fuel
  | cons x l ih =>
    obtain ⟨hx, hl⟩ := List.forall_mem_cons.mp hl
    have hpos := List.length_pos_of_ne_nil (hws.ne_nil x hx)
    rw [List.flatten_cons, List.append_assoc] at hfuel ⊢
    rw [List.length_append] at hfuel
    obtain ⟨fuel, rfl⟩ : ∃ n, fuel = n + 1 := ⟨fuel - 1, by omega⟩
    have hpre : x <+: x ++ (l.flatten ++ t) := List.prefix_append _ _
    have hfind : (ws.find? fun w => w.isPrefixOf (x ++ (l.flatten ++ t))) = some x := by
      cases hfind : ws.find? fun w => w.isPrefixOf (x ++ (l.flatten ++ t)) with
      | none =>
        exact absurd (List.isPrefixOf_iff_prefix.mpr hpre) (List.find?_eq_none.mp hfind x hx)
      | some y =>
        obtain ⟨hy, hypre⟩ := mem_prefix_of_find hfind
        rcases List.prefix_or_prefix_of_prefix hpre hypre with hxy | hyx
        · rw [hws.eq_of_prefix x hx y hy hxy]
        · rw [hws.eq_of_prefix y hy x hx hyx]
    simp only [trimFront, hfind, List.drop_left]
    exact ih hl (by omega)

/-- A byte that is in no string of `ws` ends the search. -/
theorem not_prefix_append {x t u : Bytes} {c : UInt8} (hc : c ∉ x) (h : ¬x <+: t) :
    ¬x <+: t ++ c :: u := by
  intro hpre
  rcases List.prefix_or_prefix_of_prefix hpre (List.prefix_append t (c :: u)) with hx | ⟨y, rfl⟩
  · exact h hx
  · rw [List.prefix_append_right_inj] at hpre
    cases y with
    | nil => exact h (by simp)
    | cons d y =>
      obtain rfl : d = c := by
        obtain ⟨z, hz⟩ := hpre
        exact (List.cons.inj hz).1
      exact hc (by simp)

end Front

/-! ## White space -/

theorem prefixCode_spaces : PrefixCode spaces where
  ne_nil := by decide +kernel
  eq_of_prefix := by decide +kernel

theorem prefixCode_reverse : PrefixCode (spaces.map List.reverse) where
  ne_nil := by decide +kernel
  eq_of_prefix := by decide +kernel

/-- A byte inside the encoding of a character is not the first one of another. -/
theorem tail_ne_head : ∀ x ∈ spaces, ∀ c ∈ x.tail, ∀ y ∈ spaces, y.head? ≠ some c := by
  -- as a Boolean, which is much cheaper to evaluate than the quantifier over bytes
  have hall : (spaces.all fun x => x.tail.all fun c => spaces.all fun y => y.head? != some c)
      = true := by decide +kernel
  simpa only [List.all_eq_true, bne_iff_ne] using hall

/-- A string of white space. -/
def IsSpace (w : Bytes) : Prop := ∃ l : List Bytes, (∀ x ∈ l, x ∈ spaces) ∧ w = l.flatten

theorem IsSpace.nil : IsSpace [] := ⟨[], by simp, rfl⟩

theorem IsSpace.append {v w : Bytes} (hv : IsSpace v) (hw : IsSpace w) : IsSpace (v ++ w) := by
  obtain ⟨l, hl, rfl⟩ := hv
  obtain ⟨l', hl', rfl⟩ := hw
  exact ⟨l ++ l', fun x hx => (List.mem_append.mp hx).elim (hl x) (hl' x), by simp⟩

/-- White space is empty if it does not end in white space. -/
theorem IsSpace.eq_nil {w : Bytes} (hw : IsSpace w) (h : ∀ x ∈ spaces, ¬x <:+ w) : w = [] := by
  obtain ⟨l, hl, rfl⟩ := hw
  rcases List.eq_nil_or_concat' l with rfl | ⟨l, x, rfl⟩
  · rfl
  · refine absurd ?_ (h x (hl x (by simp)))
    rw [List.flatten_append, List.flatten_singleton]
    exact List.suffix_append _ _

def trimLeft (s : Bytes) : Bytes := trimFront spaces s.length s

def trimRight (s : Bytes) : Bytes :=
  (trimFront (spaces.map List.reverse) s.length s.reverse).reverse

theorem trimSpace_def (s : Bytes) : trimSpace s = trimRight (trimLeft s) := rfl

theorem trimLeft_spec (s : Bytes) :
    (∃ w, IsSpace w ∧ s = w ++ trimLeft s) ∧ ∀ x ∈ spaces, ¬x <+: trimLeft s := by
  obtain ⟨⟨l, hl, hs⟩, hnone⟩ := trimFront_spec prefixCode_spaces (le_refl s.length)
  exact ⟨⟨l.flatten, ⟨l, hl, rfl⟩, hs⟩, hnone⟩

theorem trimLeft_of_none {s : Bytes} (h : ∀ x ∈ spaces, ¬x <+: s) : trimLeft s = s :=
  trimFront_of_none h _

theorem trimLeft_append {w : Bytes} (hw : IsSpace w) {t : Bytes} (ht : ∀ x ∈ spaces, ¬x <+: t) :
    trimLeft (w ++ t) = t := by
  obtain ⟨l, hl, rfl⟩ := hw
  exact trimFront_eq prefixCode_spaces hl ht le_rfl

theorem IsSpace.reverse {w : Bytes} (hw : IsSpace w) :
    ∃ l : List Bytes, (∀ x ∈ l, x ∈ spaces.map List.reverse) ∧ w.reverse = l.flatten := by
  obtain ⟨l, hl, rfl⟩ := hw
  refine ⟨(l.map List.reverse).reverse, fun x hx => ?_, List.reverse_flatten⟩
  obtain ⟨y, hy, rfl⟩ := List.mem_map.mp (List.mem_reverse.mp hx)
  exact List.mem_map.mpr ⟨y, hl y hy, rfl⟩

theorem trimRight_spec (s : Bytes) :
    (∃ w, IsSpace w ∧ s = trimRight s ++ w) ∧ ∀ x ∈ spaces, ¬x <:+ trimRight s := by
  have hlen : s.reverse.length ≤ s.length := by simp
  obtain ⟨⟨l, hl, hs⟩, hnone⟩ := trimFront_spec prefixCode_reverse hlen
  refine ⟨⟨l.flatten.reverse, ⟨(l.map List.reverse).reverse, fun x hx => ?_, ?_⟩, ?_⟩,
    fun x hx hsuf => ?_⟩
  · obtain ⟨y, hy, rfl⟩ := List.mem_map.mp (List.mem_reverse.mp hx)
    obtain ⟨z, hz, rfl⟩ := List.mem_map.mp (hl y hy)
    rwa [List.reverse_reverse]
  · exact List.reverse_flatten
  · rw [trimRight, ← List.reverse_append, ← hs, List.reverse_reverse]
  · refine hnone x.reverse (List.mem_map.mpr ⟨x, hx, rfl⟩) ?_
    rwa [trimRight, ← List.reverse_prefix, List.reverse_reverse] at hsuf

theorem trimRight_append {w : Bytes} (hw : IsSpace w) {t : Bytes} (ht : ∀ x ∈ spaces, ¬x <:+ t) :
    trimRight (t ++ w) = t := by
  obtain ⟨l, hl, hrev⟩ := hw.reverse
  have hnone : ∀ x ∈ spaces.map List.reverse, ¬x <+: t.reverse := by
    intro x hx hpre
    obtain ⟨y, hy, rfl⟩ := List.mem_map.mp hx
    exact ht y hy (List.reverse_prefix.mp hpre)
  have hcut := trimFront_eq prefixCode_reverse hl hnone le_rfl
  rw [← hrev, ← List.reverse_append, List.length_reverse] at hcut
  rw [trimRight, hcut, List.reverse_reverse]

/-- **A string is its trimmed form with white space around it.** -/
theorem trimSpace_spec (s : Bytes) :
    ∃ v w, IsSpace v ∧ IsSpace w ∧ s = v ++ (trimSpace s ++ w) := by
  obtain ⟨⟨v, hv, hs⟩, _⟩ := trimLeft_spec s
  obtain ⟨⟨w, hw, hs'⟩, _⟩ := trimRight_spec (trimLeft s)
  exact ⟨v, w, hv, hw, by rw [trimSpace_def, ← hs', ← hs]⟩

/-! ## Trimming in steps -/

section Steps

variable {w s : Bytes}

theorem trimLeft_space_append (hw : IsSpace w) (s : Bytes) : trimLeft (w ++ s) = trimLeft s := by
  obtain ⟨⟨v, hv, hs⟩, hnone⟩ := trimLeft_spec s
  have hcut := trimLeft_append (hw.append hv) hnone
  rwa [List.append_assoc, ← hs] at hcut

theorem trimRight_append_space (hw : IsSpace w) (s : Bytes) : trimRight (s ++ w) = trimRight s := by
  obtain ⟨⟨v, hv, hs⟩, hnone⟩ := trimRight_spec s
  have hcut := trimRight_append (hv.append hw) hnone
  rwa [← List.append_assoc, ← hs] at hcut

theorem trimSpace_space {w : Bytes} (hw : IsSpace w) : trimSpace w = [] := by
  have hleft := trimLeft_space_append hw []
  rw [List.append_nil] at hleft
  rw [trimSpace_def, hleft]
  rfl

/-- White space behind a string does not complete a character at its beginning. -/
theorem not_prefix_append_space {t : Bytes} (ht : t ≠ []) (hnone : ∀ x ∈ spaces, ¬x <+: t)
    (hw : IsSpace w) : ∀ x ∈ spaces, ¬x <+: t ++ w := by
  intro x hx hpre
  rcases List.prefix_or_prefix_of_prefix hpre (List.prefix_append t w) with hshort | ⟨y, rfl⟩
  · exact hnone x hx hshort
  rw [List.prefix_append_right_inj] at hpre
  obtain ⟨l, hl, rfl⟩ := hw
  cases y with
  | nil => exact hnone _ hx (by simp)
  | cons c y =>
    cases l with
    | nil => simp at hpre
    | cons z l =>
      obtain ⟨hz, _⟩ := List.forall_mem_cons.mp hl
      have htail : c ∈ (t ++ c :: y).tail := by
        rw [List.tail_append_of_ne_nil ht]
        simp
      cases z with
      | nil => exact prefixCode_spaces.ne_nil _ hz rfl
      | cons d z =>
        obtain ⟨u, hu⟩ := hpre
        obtain rfl : c = d := (List.cons.inj hu).1
        exact tail_ne_head _ hx c htail _ hz rfl

/-- **Trimming at the end first changes nothing.** -/
theorem trimSpace_trimRight (s : Bytes) : trimSpace (trimRight s) = trimSpace s := by
  obtain ⟨⟨w, hw, hs⟩, hend⟩ := trimRight_spec s
  obtain ⟨⟨v, hv, hs'⟩, hfront⟩ := trimLeft_spec (trimRight s)
  by_cases hnil : trimLeft (trimRight s) = []
  · -- nothing but white space
    have hright : trimRight s = v := by rw [hs', hnil, List.append_nil]
    have hall : trimLeft s = [] := by
      have := trimLeft_space_append (hv.append hw) []
      rw [List.append_nil, ← hright, ← hs] at this
      exact this
    rw [trimSpace_def, trimSpace_def, hnil, hall]
  · have hleft : trimLeft s = trimLeft (trimRight s) ++ w := by
      have hcut := trimLeft_append hv (not_prefix_append_space hnil hfront hw)
      rwa [← List.append_assoc, ← hs', ← hs] at hcut
    rw [trimSpace_def, trimSpace_def, hleft, trimRight_append_space hw]

theorem length_trimSpace_le (s : Bytes) : (trimSpace s).length ≤ s.length := by
  obtain ⟨v, w, _, _, hs⟩ := trimSpace_spec s
  have := congrArg List.length hs
  simp only [List.length_append] at this
  omega

/-- The trimmed form does not end in white space. -/
theorem trimSpace_end (s : Bytes) : ∀ x ∈ spaces, ¬x <:+ trimSpace s := (trimRight_spec _).2

theorem trimSpace_trimSpace (s : Bytes) : trimSpace (trimSpace s) = trimSpace s := by
  have hleft : trimLeft (trimLeft s) = trimLeft s := trimLeft_of_none (trimLeft_spec s).2
  rw [trimSpace_def s, trimSpace_trimRight, trimSpace_def, hleft]

/-- Is the byte in no encoding of white space? -/
def Visible (c : UInt8) : Prop := ∀ x ∈ spaces, c ∉ x

theorem spaces_not_ascii : ∀ x ∈ spaces, ∀ c ∈ x, ¬(0x21 ≤ c ∧ c ≤ 0x7e) := by
  have hall : (spaces.all fun x => x.all fun c => !decide (0x21 ≤ c ∧ c ≤ 0x7e)) = true := by
    decide +kernel
  simpa only [List.all_eq_true, Bool.not_eq_true', decide_eq_false_iff_not] using hall

theorem visible_of_ascii {c : UInt8} (h : 0x21 ≤ c ∧ c ≤ 0x7e) : Visible c :=
  fun x hx hc => spaces_not_ascii x hx c hc h

theorem IsSpace.not_mem {c : UInt8} (hc : Visible c) (hw : IsSpace w) : c ∉ w := by
  obtain ⟨l, hl, rfl⟩ := hw
  intro hmem
  obtain ⟨x, hx, hcx⟩ := List.mem_flatten.mp hmem
  exact hc x (hl x hx) hcx

theorem Visible.not_prefix {c : UInt8} (hc : Visible c) (s : Bytes) :
    ∀ x ∈ spaces, ¬x <+: c :: s := by
  intro x hx
  have hnil : ¬x <+: [] := fun h => prefixCode_spaces.ne_nil x hx (List.prefix_nil.mp h)
  exact not_prefix_append (t := []) (hc x hx) hnil

/-- **White space around a string that begins and ends visibly is cut off.** -/
theorem trimSpace_append {v w m : Bytes} {c : UInt8} (hv : IsSpace v) (hw : IsSpace w)
    (hc : Visible c) (hm : ∀ x ∈ spaces, ¬x <:+ c :: m) :
    trimSpace (v ++ (c :: m ++ w)) = c :: m := by
  have hleft : trimLeft (v ++ (c :: m ++ w)) = c :: m ++ w := by
    rw [trimLeft_space_append hv, List.cons_append, trimLeft_of_none (hc.not_prefix _)]
  rw [trimSpace_def, hleft, trimRight_append hw hm]

/-- Nothing is cut off from a text of visible bytes. -/
theorem trimSpace_eq_self (hs : ∀ c ∈ s, Visible c) : trimSpace s = s := by
  cases s with
  | nil => rfl
  | cons c m =>
    have hend : ∀ x ∈ spaces, ¬x <:+ c :: m := by
      intro x hx hsuf
      obtain ⟨d, hd⟩ := List.exists_mem_of_ne_nil x (prefixCode_spaces.ne_nil x hx)
      exact hs d (hsuf.mem hd) x hx hd
    have hcut := trimSpace_append IsSpace.nil IsSpace.nil (hs c List.mem_cons_self) hend
    rwa [List.nil_append, List.append_nil] at hcut

/-- What stands between two visible bytes is kept. -/
theorem trimSpace_between {v m : Bytes} {c d : UInt8} (hv : IsSpace v) (hc : Visible c)
    (hd : Visible d) (s : Bytes) :
    trimSpace (v ++ c :: (m ++ d :: s)) = c :: (m ++ d :: trimRight s) := by
  obtain ⟨⟨w, hw, hs⟩, hnone⟩ := trimRight_spec s
  have hleft : trimLeft (v ++ c :: (m ++ d :: s)) = c :: (m ++ d :: s) := by
    rw [trimLeft_space_append hv, trimLeft_of_none (hc.not_prefix _)]
  have hend : ∀ x ∈ spaces, ¬x <:+ c :: (m ++ d :: trimRight s) := by
    intro x hx hsuf
    have hrev := List.reverse_prefix.mpr hsuf
    have hsplit : (c :: (m ++ d :: trimRight s)).reverse
        = (trimRight s).reverse ++ d :: (m.reverse ++ [c]) := by simp
    rw [hsplit] at hrev
    refine not_prefix_append (by simpa using hd x hx) ?_ hrev
    exact fun h => hnone x hx (List.reverse_prefix.mp h)
  have hright := trimRight_append hw hend
  rw [trimSpace_def, hleft, ← hright]
  congr 1
  conv_lhs => rw [hs]
  simp

end Steps

end GoString
