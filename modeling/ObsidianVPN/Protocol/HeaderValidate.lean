import ObsidianVPN.Protocol.Header

/-!
# Validated header configurations

`Validate` compares the five ranges pairwise. A range whose bounds are in the wrong order contains
nothing and overlaps with little, and `Validate` does not look for one.

* `HeaderConfig.validate`: the two loops; **`validate_ok_iff`**: no two ranges overlap;
* `overlaps_of_contains`, `overlaps_of_full`: what the test finds;
* **`validated_decodes_iff`**: with a validated configuration a type id reads back as the type it was
  picked for exactly when the bounds of the range are in order.
-/

namespace ObsidianVPN.Protocol

/-! ## The source -/

/-- The test of `Validate`. -/
def HeaderRange.overlaps (a b : HeaderRange) : Prop := a.min ≤ b.max ∧ b.min ≤ a.max

instance (a b : HeaderRange) : Decidable (a.overlaps b) := inferInstanceAs (Decidable (_ ∧ _))

def overlapError (a b : String × HeaderRange) : String :=
  s!"header ranges {a.1} [{a.2.min},{a.2.max}] and {b.1} [{b.2.min},{b.2.max}] overlap"

/-- The inner loop of `Validate`: one range against those behind it. -/
def validateAgainst (a : String × HeaderRange) : List (String × HeaderRange) → Except String Unit
  | [] => .ok ()
  | b :: rest => if a.2.overlaps b.2 then .error (overlapError a b) else validateAgainst a rest

/-- The outer loop. -/
def validateRanges : List (String × HeaderRange) → Except String Unit
  | [] => .ok ()
  | a :: rest =>
    match validateAgainst a rest with
    | .error err => .error err
    | .ok () => validateRanges rest

namespace HeaderConfig

variable (hc : HeaderConfig)

def namedRanges : List (String × HeaderRange) :=
  [("Data", hc.data), ("Keepalive", hc.keepalive), ("Noise", hc.noise), ("Handshake", hc.handshake),
    ("Close", hc.close)]

def validate : Except String Unit := validateRanges hc.namedRanges

end HeaderConfig

/-! ## What is validated -/

theorem validateAgainst_ok_iff (a : String × HeaderRange) (l : List (String × HeaderRange)) :
    validateAgainst a l = .ok () ↔ ∀ b ∈ l, ¬a.2.overlaps b.2 := by
  induction l with
  | nil => simp [validateAgainst]
  | cons b l ih =>
    rw [validateAgainst, List.forall_mem_cons]
    split
    · rename_i hover
      exact iff_of_false (by simp) fun h => h.1 hover
    · rename_i hover
      rw [ih, and_iff_right hover]

theorem validateRanges_ok_iff (l : List (String × HeaderRange)) :
    validateRanges l = .ok () ↔ l.Pairwise fun a b => ¬a.2.overlaps b.2 := by
  induction l with
  | nil => simp [validateRanges]
  | cons a l ih =>
    rw [validateRanges, List.pairwise_cons, ← validateAgainst_ok_iff, ← ih]
    split
    · rename_i err herr
      exact iff_of_false (by simp) fun h => by simp [herr] at h
    · rename_i hok
      rw [and_iff_right hok]

theorem HeaderRange.overlaps_comm {a b : HeaderRange} : a.overlaps b ↔ b.overlaps a := and_comm

/-- **A validated configuration has no two ranges that overlap.** -/
theorem validate_ok_iff (hc : HeaderConfig) :
    hc.validate = .ok () ↔
      ∀ pt pt', pt ≠ pt' → ¬(hc.rangeFor pt).overlaps (hc.rangeFor pt') := by
  rw [HeaderConfig.validate, validateRanges_ok_iff]
  simp only [HeaderConfig.namedRanges, List.pairwise_cons, List.forall_mem_cons, List.not_mem_nil,
    List.Pairwise.nil, IsEmpty.forall_iff, implies_true, and_true]
  constructor
  · rintro ⟨⟨hdk, hdn, hdh, hdc⟩, ⟨hkn, hkh, hkc⟩, ⟨hnh, hnc⟩, hhc⟩ pt pt' hne
    cases pt <;> cases pt' <;> first
      | exact absurd rfl hne
      | assumption
      | rw [HeaderRange.overlaps_comm]; assumption
  · intro h
    exact ⟨⟨h .data .keepalive (by decide), h .data .noise (by decide),
      h .data .handshake (by decide), h .data .close (by decide)⟩,
      ⟨h .keepalive .noise (by decide), h .keepalive .handshake (by decide),
        h .keepalive .close (by decide)⟩,
      ⟨h .noise .handshake (by decide), h .noise .close (by decide)⟩,
      h .handshake .close (by decide)⟩

/-! ## Picking a type id -/

section Pick

variable {a b : HeaderRange}

theorem overlaps_of_contains {v : UInt32} (ha : a.contains v = true) (hb : b.contains v = true) :
    a.overlaps b := by
  simp only [HeaderRange.contains, decide_eq_true_eq] at ha hb
  exact ⟨UInt32.le_trans ha.1 hb.2, UInt32.le_trans hb.1 ha.2⟩

/-- The full range overlaps with every other, also with one whose bounds are in the wrong order. -/
theorem overlaps_of_full (hmin : a.min.toNat = 0) (hmax : a.max.toNat = 2 ^ 32 - 1) :
    a.overlaps b := by
  have hb := b.min.toNat_lt
  simp only [HeaderRange.overlaps, UInt32.le_iff_toNat_le]
  omega

/-- A range whose bounds are in the wrong order gives its lower bound, which it does not contain. -/
theorem contains_pick_eq_false (h : a.max < a.min) {draw : ℕ} {v : UInt32}
    (hv : a.pick draw = .ok v) : a.contains v = false := by
  rw [HeaderRange.pick, if_pos (UInt32.le_of_lt h)] at hv
  cases hv
  simp only [HeaderRange.contains, decide_eq_false_iff_not, not_and, UInt32.not_le]
  exact fun _ => h

end Pick

theorem contains_of_typeIDToPacketType {hc : HeaderConfig} {v : UInt32} {pt : PacketType}
    (h : hc.typeIDToPacketType v = .ok pt) : (hc.rangeFor pt).contains v = true := by
  unfold HeaderConfig.typeIDToPacketType at h
  split at h
  · cases h
    assumption
  split at h
  · cases h
    assumption
  split at h
  · cases h
    assumption
  split at h
  · cases h
    assumption
  split at h
  · cases h
    assumption
  · cases h

/-- **A validated configuration decodes a type exactly when the bounds of its range are in order**:
`Pick` does not panic, and the picked type id reads back as the type. -/
theorem validated_decodes_iff (hc : HeaderConfig) (hvalid : hc.validate = .ok ()) (pt : PacketType)
    (draw : ℕ) :
    (∃ v, (hc.rangeFor pt).pick draw = .ok v ∧ hc.typeIDToPacketType v = .ok pt) ↔
      (hc.rangeFor pt).min ≤ (hc.rangeFor pt).max := by
  rw [validate_ok_iff] at hvalid
  constructor
  · rintro ⟨v, hpick, htype⟩
    by_contra hlt
    have hout := contains_pick_eq_false (UInt32.not_le.mp hlt) hpick
    rw [contains_of_typeIDToPacketType htype] at hout
    cases hout
  · intro hle
    have hfull : ¬(hc.rangeFor pt).Full := by
      rintro ⟨hmin, hmax⟩
      obtain ⟨pt', hne⟩ := exists_ne pt
      exact hvalid pt pt' hne.symm (overlaps_of_full hmin hmax)
    obtain ⟨v, hv⟩ := (HeaderRange.pick_isOk_iff _ draw).mpr hfull
    have hin := HeaderRange.contains_pick hle hv
    refine ⟨v, hv, HeaderConfig.typeIDToPacketType_of_contains hin fun pt' hne => ?_⟩
    by_contra hin'
    exact hvalid pt' pt hne (overlaps_of_contains (by simpa using hin') hin)

theorem default_decodes :
    defaultHeaderConfig.validate = .ok () ∧
      ∃ v, (defaultHeaderConfig.rangeFor .noise).pick 5 = .ok v ∧
        defaultHeaderConfig.typeIDToPacketType v = .ok .noise := by
  have hvalid : defaultHeaderConfig.validate = .ok () := by decide +kernel
  exact ⟨hvalid, (validated_decodes_iff defaultHeaderConfig hvalid .noise 5).mpr (by decide)⟩

/-- The default configuration with a data range whose bounds are in the wrong order. -/
def swappedConfig : HeaderConfig := { defaultHeaderConfig with data := ⟨0x2FFFFFFF, 0x10000000⟩ }

/-- It is validated, but a data packet is read as a keepalive packet. -/
theorem swapped_data_misread :
    swappedConfig.validate = .ok () ∧
      (swappedConfig.rangeFor .data).pick 0 = .ok 0x2FFFFFFF ∧
      swappedConfig.typeIDToPacketType 0x2FFFFFFF = .ok .keepalive := by
  decide +kernel

end ObsidianVPN.Protocol
