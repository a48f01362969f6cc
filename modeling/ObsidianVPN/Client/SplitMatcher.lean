import ObsidianVPN.Lib.Labels
import ObsidianVPN.Lib.Netip
import ObsidianVPN.Lib.TrimSpace

/-!
# Domain rules of the split tunnel

`NewSplitMatcher` sorts the entries of a list into prefixes, addresses and domain rules, and
`MatchesDomain` compares a domain with the rules by string suffixes. A suffix is always tested with a
dot in front of it, so that a rule matches whole labels only.

* `normalizeDomain`, `addEntry`, `newSplitMatcher`, `matchesDomain`;
* `ruleForms`, `mem_patterns_new`: the strings for which a rule stands;
* `Variant`, `mem_ruleForms_iff`: the same for lists of labels;
* **`matchesDomain_iff`**: a domain is matched exactly if the labels of a rule are its last ones.
-/

namespace ObsidianVPN.Client

open ByteStr GoString Labels Netip

/-! ## The matcher -/

/-- The functions of the standard library on texts that the matcher uses. -/
structure SplitText (Net : Type*) where
  toLower : Bytes → Bytes
  parseCIDR : Bytes → Option Net
  parseIP : Bytes → Option Bytes
  ipString : Bytes → Bytes
  toLower_nil : toLower [] = []

/-- The rules; the keys of the map `exactDomains` are a list. -/
structure SplitMatcher (Net : Type*) where
  exactDomains : List Bytes := []
  suffixRules : List Bytes := []
  tldRules : List Bytes := []
  ipNets : List Net := []
  staticIPs : List Bytes := []
  domainList : List Bytes := []

variable {Net : Type*} (T : SplitText Net)

def normalizeDomain (d : Bytes) : Bytes :=
  let d := T.toLower (trimSpace d)
  let d := trimPrefix (ascii "http://") d
  let d := trimPrefix (ascii "https://") d
  let d := cutAny (ascii "/:?#") d
  trimSuffix (ascii ".") d

/-- The zone `рф` and its form in ASCII. -/
def zoneRF : Bytes := ascii "рф"

def zonePuny : Bytes := ascii "xn--p1ai"

def isTopLevelZone (z : Bytes) : Bool :=
  decide (z ∈ [ascii "ru", zoneRF, ascii "su", ascii "by", ascii "kz", ascii "ua", ascii "com",
    ascii "net", ascii "org", zonePuny])

/-- The rule without the wildcard in front. -/
def cleanRule (domain : Bytes) : Bytes :=
  if (ascii "*.").isPrefixOf domain then trimPrefix (ascii "*.") domain
  else if (ascii ".").isPrefixOf domain then trimPrefix (ascii ".") domain
  else domain

/-- The matcher with one more domain rule. -/
def addRule (m : SplitMatcher Net) (rule : Bytes) : SplitMatcher Net :=
  if isTopLevelZone rule then
    let more := if rule = zoneRF then [zonePuny] else if rule = zonePuny then [zoneRF] else []
    { m with
      tldRules := m.tldRules ++ rule :: more
      domainList := m.domainList ++ [ascii "*." ++ rule] }
  else
    let m := { m with
      exactDomains := m.exactDomains ++ [rule]
      suffixRules := m.suffixRules ++ [ascii "." ++ rule]
      domainList := m.domainList ++ [rule] }
    if (ascii "." ++ zoneRF).isSuffixOf rule then
      let puny := trimSuffix (ascii "." ++ zoneRF) rule ++ (ascii "." ++ zonePuny)
      { m with
        exactDomains := m.exactDomains ++ [puny]
        suffixRules := m.suffixRules ++ [ascii "." ++ puny] }
    else m

/-- One round of the loop of `NewSplitMatcher`. -/
def addEntry (m : SplitMatcher Net) (raw : Bytes) : SplitMatcher Net :=
  let raw := trimSpace raw
  if raw = [] ∨ (ascii "#").isPrefixOf raw then m
  else
    match T.parseCIDR raw with
    | some ipNet => { m with ipNets := m.ipNets ++ [ipNet] }
    | none =>
      match T.parseIP raw with
      | some ip =>
        match Addr.to4 ip with
        | some ip4 => { m with staticIPs := m.staticIPs ++ [T.ipString ip4] }
        | none => m
      | none =>
        let domain := normalizeDomain T raw
        if domain = [] then m else addRule m (cleanRule domain)

def newSplitMatcher (entries : List Bytes) : SplitMatcher Net := entries.foldl (addEntry T) {}

def matchesDomain (m : SplitMatcher Net) (domain : Bytes) : Bool :=
  let d := normalizeDomain T domain
  if d = [] then false
  else if d ∈ m.exactDomains then true
  else if m.suffixRules.any fun suffix => suffix.isSuffixOf d then true
  else m.tldRules.any fun tld => (ascii "." ++ tld).isSuffixOf d || decide (d = tld)

/-! ## The strings of a rule -/

/-- The strings for which a rule stands: itself, and with the zone `рф` in its other form. -/
def ruleForms (rule : Bytes) : List Bytes :=
  rule :: if rule = zoneRF then [zonePuny]
    else if rule = zonePuny then [zoneRF]
    else if (ascii "." ++ zoneRF).isSuffixOf rule then
      [trimSuffix (ascii "." ++ zoneRF) rule ++ (ascii "." ++ zonePuny)]
    else []

/-- All strings of the domain rules. -/
def SplitMatcher.patterns (m : SplitMatcher Net) : List Bytes := m.exactDomains ++ m.tldRules

/-- The suffixes are the exact domains with a dot in front. -/
def SplitMatcher.Paired (m : SplitMatcher Net) : Prop :=
  m.suffixRules = m.exactDomains.map fun d => ascii "." ++ d

theorem zone_not_dotted {rule : Bytes} (h : isTopLevelZone rule = true) :
    (ascii "." ++ zoneRF).isSuffixOf rule = false := by
  have hall : ∀ z ∈ [ascii "ru", zoneRF, ascii "su", ascii "by", ascii "kz", ascii "ua",
      ascii "com", ascii "net", ascii "org", zonePuny],
      (ascii "." ++ zoneRF).isSuffixOf z = false := by decide +kernel
  exact hall rule (of_decide_eq_true h)

theorem mem_patterns_addRule (m : SplitMatcher Net) (rule p : Bytes) :
    p ∈ (addRule m rule).patterns ↔ p ∈ m.patterns ∨ p ∈ ruleForms rule := by
  unfold addRule
  split
  · rename_i hzone
    simp only [SplitMatcher.patterns, ruleForms, zone_not_dotted hzone, Bool.false_eq_true, if_false,
      List.mem_append, List.mem_cons]
    tauto
  · rename_i hzone
    have hRF : rule ≠ zoneRF := fun h => hzone (h ▸ by decide +kernel)
    have hPuny : rule ≠ zonePuny := fun h => hzone (h ▸ by decide +kernel)
    split
    · rename_i hdot
      simp only [SplitMatcher.patterns, ruleForms, if_neg hRF, if_neg hPuny, if_pos hdot,
        List.mem_append, List.mem_cons, List.not_mem_nil, or_false]
      tauto
    · rename_i hdot
      simp only [SplitMatcher.patterns, ruleForms, if_neg hRF, if_neg hPuny, if_neg hdot,
        List.mem_append, List.mem_cons, List.not_mem_nil, or_false]
      tauto

theorem paired_addRule {m : SplitMatcher Net} (h : m.Paired) (rule : Bytes) :
    (addRule m rule).Paired := by
  unfold SplitMatcher.Paired at h
  unfold addRule
  split
  · exact h
  · split
    · simp [SplitMatcher.Paired, h]
    · simp [SplitMatcher.Paired, h]

/-- The rule of an entry that is not a comment, a prefix or an address and not empty. -/
def IsRule (entry rule : Bytes) : Prop :=
  (ascii "#").isPrefixOf (trimSpace entry) = false ∧ T.parseCIDR (trimSpace entry) = none ∧
    T.parseIP (trimSpace entry) = none ∧ normalizeDomain T entry ≠ [] ∧
    rule = cleanRule (normalizeDomain T entry)

theorem normalizeDomain_trimSpace (d : Bytes) :
    normalizeDomain T (trimSpace d) = normalizeDomain T d := by
  unfold normalizeDomain
  rw [trimSpace_trimSpace]

theorem normalizeDomain_blank {d : Bytes} (h : trimSpace d = []) : normalizeDomain T d = [] := by
  rw [normalizeDomain, h, T.toLower_nil]
  decide +kernel

variable {T}

/-- An entry adds its rule, or no rule. -/
theorem addEntry_cases (m : SplitMatcher Net) (entry : Bytes) :
    (∃ rule, IsRule T entry rule ∧ addEntry T m entry = addRule m rule) ∨
      (∀ rule, ¬IsRule T entry rule) ∧ (addEntry T m entry).patterns = m.patterns ∧
        (addEntry T m entry).exactDomains = m.exactDomains ∧
        (addEntry T m entry).suffixRules = m.suffixRules := by
  unfold addEntry
  simp only [normalizeDomain_trimSpace]
  split
  · rename_i hskip
    refine .inr ⟨fun rule hrule => ?_, rfl, rfl, rfl⟩
    rcases hskip with hblank | hcomment
    · exact hrule.2.2.2.1 (normalizeDomain_blank T hblank)
    · rw [hrule.1] at hcomment
      cases hcomment
  · rename_i hskip
    split
    · rename_i hcidr
      exact .inr ⟨fun rule hrule => (by simp [hrule.2.1] at hcidr), rfl, rfl, rfl⟩
    · rename_i hcidr
      split
      · rename_i hip
        refine .inr ⟨fun rule hrule => (by simp [hrule.2.2.1] at hip), ?_⟩
        split
        · exact ⟨rfl, rfl, rfl⟩
        · exact ⟨rfl, rfl, rfl⟩
      · rename_i hip
        split
        · rename_i hempty
          exact .inr ⟨fun rule hrule => hrule.2.2.2.1 hempty, rfl, rfl, rfl⟩
        · rename_i hempty
          refine .inl ⟨_, ⟨?_, hcidr, hip, hempty, rfl⟩, rfl⟩
          exact Bool.eq_false_iff.mpr fun h => hskip (.inr h)

theorem mem_patterns_addEntry (m : SplitMatcher Net) (entry p : Bytes) :
    p ∈ (addEntry T m entry).patterns ↔
      p ∈ m.patterns ∨ ∃ rule, IsRule T entry rule ∧ p ∈ ruleForms rule := by
  rcases addEntry_cases (T := T) m entry with ⟨rule, hrule, hadd⟩ | ⟨hnone, hsame, _⟩
  · rw [hadd, mem_patterns_addRule]
    refine or_congr_right ⟨fun hp => ⟨rule, hrule, hp⟩, ?_⟩
    rintro ⟨rule', hrule', hp⟩
    rwa [hrule.2.2.2.2, ← hrule'.2.2.2.2]
  · rw [hsame]
    refine ⟨.inl, ?_⟩
    rintro (hp | ⟨rule, hrule, _⟩)
    · exact hp
    · exact absurd hrule (hnone rule)

theorem mem_patterns_foldl (m : SplitMatcher Net) (entries : List Bytes) (p : Bytes) :
    p ∈ (entries.foldl (addEntry T) m).patterns ↔
      p ∈ m.patterns ∨ ∃ entry ∈ entries, ∃ rule, IsRule T entry rule ∧ p ∈ ruleForms rule := by
  induction entries generalizing m with
  | nil => simp
  | cons entry entries ih =>
    rw [List.foldl_cons, ih, mem_patterns_addEntry, or_assoc]
    simp only [List.mem_cons, exists_eq_or_imp]

theorem paired_foldl {m : SplitMatcher Net} (h : m.Paired) (entries : List Bytes) :
    (entries.foldl (addEntry T) m).Paired := by
  induction entries generalizing m with
  | nil => exact h
  | cons entry entries ih =>
    refine ih ?_
    rcases addEntry_cases (T := T) m entry with ⟨rule, _, hadd⟩ | ⟨_, _, hexact, hsuffix⟩
    · rw [hadd]
      exact paired_addRule h rule
    · rw [SplitMatcher.Paired, hexact, hsuffix]
      exact h

theorem ascii_dot : ascii "." = [0x2e] := by decide +kernel

theorem matchesDomain_iff_patterns {m : SplitMatcher Net} (h : m.Paired) {domain : Bytes}
    (hne : normalizeDomain T domain ≠ []) :
    matchesDomain T m domain = true ↔
      ∃ p ∈ m.patterns, labels p <:+ labels (normalizeDomain T domain) := by
  unfold matchesDomain
  generalize normalizeDomain T domain = d at hne
  have hdot : ∀ p : Bytes, (ascii "." ++ p).isSuffixOf d = true ↔ 0x2e :: p <:+ d := by
    intro p
    rw [ascii_dot, List.singleton_append, List.isSuffixOf_iff_suffix]
  have hcond : ∀ {p q : Prop} {r : Bool} [Decidable p] [Decidable q],
      (if p then true else if q then true else r) = true ↔ p ∨ q ∨ r = true := by
    intro p q r _ _
    by_cases hp : p <;> by_cases hq : q <;> simp [hp, hq]
  rw [if_neg hne, hcond, h]
  simp only [List.any_map, List.any_eq_true, Function.comp_apply, Bool.or_eq_true, decide_eq_true_eq,
    hdot, labels_suffix_iff, SplitMatcher.patterns, List.mem_append]
  constructor
  · rintro (hexact | ⟨p, hp, hsuf⟩ | ⟨p, hp, hsuf⟩)
    · exact ⟨d, .inl hexact, .inl rfl⟩
    · exact ⟨p, .inl hp, .inr hsuf⟩
    · exact ⟨p, .inr hp, hsuf.symm⟩
  · rintro ⟨p, hp | hp, hsuf⟩
    · rcases hsuf with rfl | hsuf
      · exact .inl hp
      · exact .inr (.inl ⟨p, hp, hsuf⟩)
    · exact .inr (.inr ⟨p, hp, hsuf.symm⟩)

/-! ## The labels of a rule -/

/-- The list of labels, or the list with a last label `рф` in its other form, or the bare zone. -/
def Variant (rule form : List Bytes) : Prop :=
  form = rule ∨ (∃ init, rule = init ++ [zoneRF] ∧ form = init ++ [zonePuny]) ∨
    rule = [zonePuny] ∧ form = [zoneRF]

theorem dot_not_mem_zones : 0x2e ∉ zoneRF ∧ 0x2e ∉ zonePuny := by decide +kernel

theorem labels_zoneRF : labels zoneRF = [zoneRF] := labels_of_not_mem dot_not_mem_zones.1

theorem labels_zonePuny : labels zonePuny = [zonePuny] := labels_of_not_mem dot_not_mem_zones.2

theorem zonePuny_ne : zonePuny ≠ zoneRF := by decide +kernel

theorem ruleForms_dotted (a : Bytes) :
    ruleForms (a ++ 0x2e :: zoneRF) = [a ++ 0x2e :: zoneRF, a ++ 0x2e :: zonePuny] := by
  have hmem : (0x2e : UInt8) ∈ a ++ 0x2e :: zoneRF := by simp
  have hRF : a ++ 0x2e :: zoneRF ≠ zoneRF := fun h => dot_not_mem_zones.1 (h ▸ hmem)
  have hPuny : a ++ 0x2e :: zoneRF ≠ zonePuny := fun h => dot_not_mem_zones.2 (h ▸ hmem)
  have hsuf : (0x2e :: zoneRF).isSuffixOf (a ++ 0x2e :: zoneRF) = true :=
    List.isSuffixOf_iff_suffix.mpr (List.suffix_append _ _)
  rw [ruleForms, if_neg hRF, if_neg hPuny, ascii_dot, List.singleton_append, List.singleton_append,
    if_pos hsuf, trimSuffix_append]

/-- A rule whose last label is `рф` is that zone, or ends in a dot and the zone. -/
theorem labels_eq_append_zone {rule : Bytes} {init : List Bytes}
    (h : labels rule = init ++ [zoneRF]) :
    rule = zoneRF ∧ init = [] ∨ ∃ a, rule = a ++ 0x2e :: zoneRF ∧ labels a = init := by
  by_cases hnil : init = []
  · rw [hnil, List.nil_append, ← labels_zoneRF] at h
    exact .inl ⟨labels_injective h, hnil⟩
  · have hrule : rule = [0x2e].intercalate init ++ 0x2e :: zoneRF := by
      rw [← join_labels rule, h, join_append hnil (by simp), List.intercalate_singleton]
    refine .inr ⟨_, hrule, ?_⟩
    rw [hrule, labels_append, labels_zoneRF] at h
    exact List.append_cancel_right h

/-- **The strings of a rule are the variants of its labels.** -/
theorem mem_ruleForms_iff (rule : Bytes) (form : List Bytes) :
    (∃ p ∈ ruleForms rule, labels p = form) ↔ Variant (labels rule) form := by
  constructor
  · rintro ⟨p, hp, rfl⟩
    rcases List.mem_cons.mp hp with rfl | hp
    · exact .inl rfl
    split at hp
    · rename_i hRF
      rw [List.mem_singleton] at hp
      exact .inr (.inl ⟨[], by rw [hRF, labels_zoneRF]; rfl, by rw [hp, labels_zonePuny]; rfl⟩)
    split at hp
    · rename_i hPuny
      rw [List.mem_singleton] at hp
      exact .inr (.inr ⟨by rw [hPuny, labels_zonePuny], by rw [hp, labels_zoneRF]⟩)
    split at hp
    · rename_i hdot
      obtain ⟨a, rfl⟩ := List.isSuffixOf_iff_suffix.mp hdot
      rw [List.mem_singleton, trimSuffix_append, ascii_dot, List.singleton_append] at hp
      rw [ascii_dot, List.singleton_append, hp, labels_append, labels_append, labels_zoneRF,
        labels_zonePuny]
      exact .inr (.inl ⟨labels a, rfl, rfl⟩)
    · cases hp
  · rintro (rfl | ⟨init, hrule, rfl⟩ | ⟨hrule, rfl⟩)
    · exact ⟨rule, List.mem_cons_self, rfl⟩
    · rcases labels_eq_append_zone hrule with ⟨rfl, rfl⟩ | ⟨a, rfl, rfl⟩
      · refine ⟨zonePuny, ?_, labels_zonePuny⟩
        rw [ruleForms, if_pos rfl]
        simp
      · refine ⟨a ++ 0x2e :: zonePuny, ?_, ?_⟩
        · rw [ruleForms_dotted]
          simp
        · rw [labels_append, labels_zonePuny]
    · obtain rfl : rule = zonePuny := labels_injective (hrule.trans labels_zonePuny.symm)
      refine ⟨zoneRF, ?_, labels_zoneRF⟩
      rw [ruleForms, if_neg zonePuny_ne, if_pos rfl]
      simp

variable (T)

/-- **Rules match on label boundaries only.** -/
theorem matchesDomain_iff (entries : List Bytes) (domain : Bytes)
    (hne : normalizeDomain T domain ≠ []) :
    matchesDomain T (newSplitMatcher T entries) domain = true ↔
      ∃ entry ∈ entries, ∃ rule, IsRule T entry rule ∧
        ∃ form, Variant (labels rule) form ∧ form <:+ labels (normalizeDomain T domain) := by
  have hpaired : (newSplitMatcher T entries).Paired := paired_foldl (m := {}) rfl entries
  have hmem := mem_patterns_foldl (T := T) {} entries
  rw [matchesDomain_iff_patterns hpaired hne, newSplitMatcher]
  constructor
  · rintro ⟨p, hp, hsuf⟩
    rcases (hmem p).mp hp with hnil | ⟨entry, hentry, rule, hrule, hform⟩
    · cases hnil
    · exact ⟨entry, hentry, rule, hrule, labels p, (mem_ruleForms_iff rule _).mp ⟨p, hform, rfl⟩, hsuf⟩
  · rintro ⟨entry, hentry, rule, hrule, form, hvariant, hsuf⟩
    obtain ⟨p, hform, rfl⟩ := (mem_ruleForms_iff rule form).mpr hvariant
    exact ⟨p, (hmem p).mpr (.inr ⟨entry, hentry, rule, hrule, hform⟩), hsuf⟩

/-- The functions of the library as they are on texts that are no addresses and whose capital letters
are those of ASCII. -/
def plainText : SplitText Unit where
  toLower := List.map fun c => if 0x41 ≤ c ∧ c ≤ 0x5a then c + 0x20 else c
  parseCIDR _ := none
  parseIP _ := none
  ipString ip4 := ip4
  toLower_nil := rfl

theorem matchesDomain_puny :
    normalizeDomain plainText (ascii "www.Gov.xn--p1ai.") ≠ [] ∧
      matchesDomain plainText (newSplitMatcher plainText [ascii "# zones", ascii "*.gov.рф"])
        (ascii "www.Gov.xn--p1ai.") = true := by
  have hne : normalizeDomain plainText (ascii "www.Gov.xn--p1ai.") ≠ [] := by decide +kernel
  refine ⟨hne, (matchesDomain_iff plainText _ _ hne).mpr ⟨ascii "*.gov.рф", by simp,
    ascii "gov.рф", ⟨by decide +kernel, rfl, rfl, by decide +kernel, by decide +kernel⟩,
    [ascii "gov", zonePuny], .inr (.inl ⟨[ascii "gov"], ?_, rfl⟩), ⟨[ascii "www"], ?_⟩⟩⟩
  · decide +kernel
  · decide +kernel

/-- A name that only ends in the letters of a rule is not matched. -/
example : matchesDomain plainText (newSplitMatcher plainText [ascii "bank.ru"])
    (ascii "notbank.ru") = false := by decide +kernel

end ObsidianVPN.Client
