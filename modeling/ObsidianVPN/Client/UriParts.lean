import ObsidianVPN.Client.Uri
import ObsidianVPN.Lib.TrimSpace

/-!
# The parts of a connection URI

* `Values.get_setIf`: what `Values.Set` does to the look-up of a parameter;
  `Lookup.text_of_get_ite`: a parameter that is left out if it is the default is read back;
* **`splitHostPort_joinHostPort`**, **`rehost_eq_self_iff`**: which hosts come back from
  `net.JoinHostPort` unchanged;
* **`NetURL.Lawful.parseURI_string`**: what `ParseURI` makes of the text of a URL.
-/

namespace ObsidianVPN.Uri

open ByteStr GoString Decimal QueryEscape

/-! ## Parameters -/

theorem ascii_inj {s t : String} : ascii s = ascii t ↔ s = t := by
  constructor
  · intro h
    exact String.toByteArray_inj.mp (ByteArray.ext (Array.toList_inj.mp h))
  · rintro rfl
    rfl

theorem Values.all_set (q : Values) (key key' : String) (value : Bytes) :
    (q.set key value).all key' = if key' = key then [value] else q.all key' := by
  unfold Values.set Values.all
  rw [List.filter_append, List.filter_filter, List.map_append]
  by_cases hkey : key' = key
  · subst hkey
    simp
  · have hne : ascii key ≠ ascii key' := fun heq => hkey (ascii_inj.mp heq).symm
    rw [if_neg hkey]
    have hfilter : ∀ p : Bytes × Bytes, (decide (p.1 = ascii key') && decide (p.1 ≠ ascii key)) =
        decide (p.1 = ascii key') := fun p => by
      by_cases hp : p.1 = ascii key'
      · simp [hp, Ne.symm hne]
      · simp [hp]
    simp only [hfilter]
    simp [hne]

theorem Values.all_setIf (q : Values) (c : Prop) [Decidable c] (key key' : String) (value : Bytes) :
    (q.setIf c key value).all key' = if c ∧ key' = key then [value] else q.all key' := by
  unfold Values.setIf
  by_cases hc : c
  · rw [if_pos hc, Values.all_set]
    simp [hc]
  · simp [hc]

@[simp] theorem Values.get_nil (key : String) : Lookup.get (Values.all []) key = [] := rfl

@[simp] theorem Values.get_setIf (q : Values) (c : Prop) [Decidable c] (key key' : String) (value : Bytes) :
    Lookup.get (q.setIf c key value).all key' =
      if c ∧ key' = key then value else Lookup.get q.all key' := by
  unfold Lookup.get
  rw [Values.all_setIf]
  split <;> rfl

section Lookup

variable {q : Lookup} {key : String} {keys : List String} {dflt v : Bytes}

theorem Lookup.first?_ne_nil (h : q.first? keys = some v) : v ≠ [] := by
  obtain ⟨key, -, hkey⟩ := List.exists_of_findSome?_eq_some h
  split at hkey
  · rename_i hne
    rwa [Option.some.inj hkey] at hne
  · exact absurd hkey (by simp)

theorem Lookup.text_ne_nil (h : dflt ≠ []) : q.text keys dflt ≠ [] := by
  unfold Lookup.text
  cases hfirst : q.first? keys with
  | none => exact h
  | some v => exact Lookup.first?_ne_nil hfirst

theorem Lookup.first?_eq_none (h : ∀ key ∈ keys, q.get key = []) : q.first? keys = none := by
  unfold Lookup.first?
  rw [List.findSome?_eq_none_iff]
  intro key hkey
  simp [h key hkey]

theorem Lookup.first?_cons (h : ∀ key ∈ keys, q.get key = []) :
    q.first? (key :: keys) = if q.get key ≠ [] then some (q.get key) else none := by
  have hrest := Lookup.first?_eq_none h
  unfold Lookup.first? at hrest ⊢
  rw [List.findSome?_cons, hrest]
  split <;> rename_i heq <;> simp only [heq]

theorem Lookup.text_of_get_eq_nil (h : ∀ key ∈ keys, q.get key = []) : q.text keys dflt = dflt := by
  rw [Lookup.text, Lookup.first?_eq_none h]
  rfl

theorem Lookup.text_of_get (h : q.get key = v) (hv : v ≠ []) : q.text (key :: keys) dflt = v := by
  subst h
  simp [Lookup.text, Lookup.first?, hv]

/-- A value that is left out if it is the default is read back. -/
theorem Lookup.text_of_get_ite (h : q.get key = if v ≠ dflt then v else [])
    (hv : v ≠ dflt → v ≠ []) (hrest : ∀ key ∈ keys, q.get key = []) :
    q.text (key :: keys) dflt = v := by
  by_cases heq : v = dflt
  · have hget : q.get key = [] := by rw [h, if_neg (not_not.mpr heq)]
    rw [Lookup.text_of_get_eq_nil (List.forall_mem_cons.mpr ⟨hget, hrest⟩), heq]
  · rw [if_pos heq] at h
    exact Lookup.text_of_get h (hv heq)

end Lookup

/-! ## Hosts and ports -/

theorem all_isDigit_port (hostPort : Bytes) : (splitHostPort hostPort).2.all isDigit = true := by
  unfold splitHostPort
  dsimp only
  split
  · rename_i h
    exact h.2
  · rfl

theorem colon_notMem {port : Bytes} (h : port.all isDigit = true) : 0x3a ∉ port := fun hmem =>
  absurd (List.all_eq_true.mp h _ hmem) (by decide)

/-- The host and the port around the last colon. -/
theorem splitHostPort_append (host : Bytes) {port : Bytes} (h : port.all isDigit = true) :
    splitHostPort (host ++ 0x3a :: port) = (unbracket host, port) := by
  have hcolon := colon_notMem h
  have hport : ((host ++ 0x3a :: port).reverse.takeWhile fun c => decide (c ≠ 0x3a)).reverse =
      port := by
    rw [List.reverse_append, List.reverse_cons, List.append_assoc, List.takeWhile_append_of_pos,
      List.singleton_append, List.takeWhile_cons_of_neg, List.append_nil, List.reverse_reverse]
    · simp
    · intro c hc
      have hne : c ≠ 0x3a := by
        rintro rfl
        exact hcolon (List.mem_reverse.mp hc)
      simpa using hne
  have hlen : (host ++ 0x3a :: port).length - port.length - 1 = host.length := by
    simp only [List.length_append, List.length_cons]
    omega
  unfold splitHostPort
  dsimp only
  rw [hport, if_pos ⟨by simp, h⟩, hlen, List.take_left]

theorem unbracket_brackets (host : Bytes) : unbracket (0x5b :: host ++ [0x5d]) = host := by
  unfold unbracket
  rw [if_pos ⟨by simp, by simp [List.isSuffixOf]⟩, List.dropLast_concat, List.tail_cons]

/-- The host that comes back. -/
def rehost (host : Bytes) : Bytes :=
  let stripped := stripBrackets host
  if 0x3a ∈ stripped then stripped else unbracket stripped

theorem splitHostPort_joinHostPort (host : Bytes) {port : Bytes} (h : port.all isDigit = true) :
    splitHostPort (joinHostPort (stripBrackets host) port) = (rehost host, port) := by
  unfold joinHostPort rehost
  dsimp only
  split
  · rw [List.append_assoc, show [0x5d, 0x3a] ++ port = [0x5d] ++ (0x3a :: port) from rfl,
      ← List.append_assoc, splitHostPort_append _ h, unbracket_brackets]
  · rw [List.append_assoc, List.singleton_append, splitHostPort_append _ h]

/-- Each bracket makes the host shorter. -/
theorem length_stripBrackets_lt {host : Bytes}
    (h : [0x5b].isPrefixOf host = true ∨ [0x5d].isSuffixOf host = true) :
    (stripBrackets host).length < host.length := by
  have hpos : 0 < host.length := by
    refine List.length_pos_of_ne_nil ?_
    rintro rfl
    simp [List.isSuffixOf] at h
  have htrim : ∀ s : Bytes, (trimSuffix [0x5d] s).length ≤ s.length := fun s => by
    unfold trimSuffix
    split <;> simp
  unfold stripBrackets
  by_cases hstart : [0x5b].isPrefixOf host = true
  · refine (htrim _).trans_lt ?_
    simp only [trimPrefix, hstart, if_true, List.length_drop, List.length_singleton]
    omega
  · have hend := h.resolve_left hstart
    simp only [trimPrefix, hstart, trimSuffix, hend, if_true, List.length_take,
      List.length_singleton, Bool.false_eq_true, if_false]
    omega

theorem length_rehost (host : Bytes) : (rehost host).length ≤ (stripBrackets host).length := by
  unfold rehost unbracket
  dsimp only
  split
  · exact le_rfl
  · split
    · simp only [List.length_tail, List.length_dropLast]
      omega
    · exact le_rfl

/-- **A host comes back unchanged exactly when it neither starts nor ends with a bracket.** -/
theorem rehost_eq_self_iff {host : Bytes} : rehost host = host ↔
    [0x5b].isPrefixOf host = false ∧ [0x5d].isSuffixOf host = false := by
  constructor
  · intro heq
    have hle := length_rehost host
    rw [heq] at hle
    have hnone := mt length_stripBrackets_lt (not_lt.mpr hle)
    rw [not_or] at hnone
    exact ⟨Bool.eq_false_iff.mpr hnone.1, Bool.eq_false_iff.mpr hnone.2⟩
  · rintro ⟨hstart, hend⟩
    have hstrip : stripBrackets host = host := by
      simp [stripBrackets, trimPrefix, trimSuffix, hstart, hend]
    simp [rehost, unbracket, hstrip, hstart]

/-! ## The text of a URI -/

section Text

variable {N : NetURL}

theorem NetURL.Lawful.toLower_eq_self (hN : N.Lawful) {s : Bytes}
    (hs : ∀ c ∈ s, c < 0x80 ∧ asciiLower c = c) : N.toLower s = s := by
  rw [hN.toLower_ascii s fun c hc => (hs c hc).1, List.map_congr_left fun c hc => (hs c hc).2]
  exact List.map_id s

/-- A URI with its own scheme is not rewritten. -/
theorem NetURL.Lawful.normURI_string (hN : N.Lawful) {u : URL} (hu : N.Built u) :
    N.normURI (N.string u) = N.string u := by
  obtain ⟨rest, hrest⟩ := hN.string_scheme u hu
  have hlower : N.toLower (N.string u) = ascii "obsidian://" ++ rest.map asciiLower := by
    rw [hN.toLower_ascii _ fun c hc => ?_, ← hrest, List.map_append]
    · rfl
    · exact UInt8.lt_of_le_of_lt (hN.string_visible u hu c hc).2 (by decide)
  have hvpn : (ascii "vpn://").isPrefixOf (N.toLower (N.string u)) = false := by
    rw [hlower]
    rfl
  have hvpn' : (ascii "vpn://obsidian/").isPrefixOf (N.toLower (N.string u)) = false := by
    rw [hlower]
    rfl
  simp only [NetURL.normURI, hvpn, hvpn', Bool.false_eq_true, if_false]

/-- What `ParseURI` makes of the text of a URL. -/
theorem NetURL.Lawful.parseURI_string (hN : N.Lawful) {u : URL} (hu : N.Built u) :
    N.parseURI (N.string u) =
      if (splitHostPort u.host).1 = [] then .error .missingHost
      else N.readURL u (splitHostPort u.host).1 (splitHostPort u.host).2 := by
  have hne : N.string u ≠ [] := by
    obtain ⟨rest, hrest⟩ := hN.string_scheme u hu
    rw [← hrest]
    exact List.append_ne_nil_of_left_ne_nil (by decide) rest
  have hscheme : N.toLower u.scheme = ascii "obsidian" := by
    rw [hu.1, hN.toLower_eq_self (by decide +kernel)]
  unfold NetURL.parseURI
  dsimp only
  rw [trimSpace_eq_self fun c hc => visible_of_ascii (hN.string_visible u hu c hc), if_neg hne, hN.normURI_string hu,
    hN.parse_string u hu]
  dsimp only
  rw [hscheme, if_neg (fun h => h.1 rfl)]

end Text

end ObsidianVPN.Uri
