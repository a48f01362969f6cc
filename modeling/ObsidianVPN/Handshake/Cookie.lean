import ObsidianVPN.Crypto.Primitives
import ObsidianVPN.Lib.Float64
import ObsidianVPN.Lib.Netip

/-!
# Handshake cookies

A cookie is a Unix time and a truncated HMAC over the client's address, its ephemeral key, a salt and
the time. The fields are put one behind the other without their lengths; the address has four or
sixteen bytes, and the salt any number.

* `generateHandshakeCookie`, `validateHandshakeCookie`, `cookieFresh`;
* `Client`, `Client.Same`: what a cookie is bound to; `Client.Shifted`: the fields cut twelve bytes
  later;
* **`Client.bytes_eq_iff`**: contexts have the same bytes if they are the same or shifted;
* `cookieFresh_seconds`: the test of the age for a whole number of seconds;
* **`validate_generate_iff`**: a fresh cookie is accepted for the contexts with the same bytes;
* **`cookie_bound_iff`**: it is accepted for the same context only, unless the contexts are shifted.
-/

namespace ObsidianVPN.Handshake

open ByteStr Netip

def cookieSize : ℕ := 32

/-- Thirty seconds, as a Go duration. -/
def defaultCookieMaxAge : ℤ := 30 * second

/-! ## The source -/

/-- The address as it goes into the MAC. -/
def cookieIP (clientIP : Bytes) : Bytes := (Addr.to4 clientIP).getD clientIP

/-- The input of the MAC. -/
def cookieInput (clientIP clientEphPub salt tsBytes : Bytes) : Bytes :=
  cookieIP clientIP ++ clientEphPub ++ salt ++ tsBytes

def generateHandshakeCookie (P : Primitives) (secret clientIP clientEphPub salt : Bytes) (ts : ℤ) :
    Bytes :=
  let tsBytes := putBE 8 (ts % 2 ^ 64).toNat
  let mac := P.hmacSHA256 secret (cookieInput clientIP clientEphPub salt tsBytes)
  tsBytes ++ mac.take 24

/-- The timestamp of a cookie is not too far ahead and not too old. Times are Unix times, and
`maxAge` is a number of nanoseconds. -/
def cookieFresh (tsSec now maxAge : ℤ) : Bool :=
  let maxAge := if maxAge ≤ 0 then defaultCookieMaxAge else maxAge
  !decide (tsSec > wrap64 (now + 15) ∨
    wrap64 (now - tsSec) > Float64.trunc (Float64.seconds maxAge))

/-- `ValidateHandshakeCookie` at the Unix time `now`. -/
def validateHandshakeCookie (P : Primitives) (cookie secret clientIP clientEphPub salt : Bytes)
    (maxAge now : ℤ) : Bool :=
  if cookie.length ≠ cookieSize ∨ secret.length = 0 then false
  else if ¬cookieFresh (wrap64 (getBE (cookie.take 8))) now maxAge then false
  else
    let expectedMAC := P.hmacSHA256 secret (cookieInput clientIP clientEphPub salt (cookie.take 8))
    decide (cookie.drop 8 = expectedMAC.take 24)

/-! ## Contexts -/

/-- What a cookie is made for: an address, IPv4, IPv6 or IPv4-mapped, a key and a salt. -/
structure Client where
  clientIP : Bytes
  clientEphPub : Bytes
  salt : Bytes
  length_clientIP : clientIP.length = 4 ∨ clientIP.length = 16
  length_clientEphPub : clientEphPub.length = keySize

namespace Client

variable (c c' : Client)

/-- The same address after unmapping, the same key and the same salt. -/
def Same : Prop :=
  (Addr.fromSlice c'.clientIP).map Addr.unmap = (Addr.fromSlice c.clientIP).map Addr.unmap ∧
    c'.clientEphPub = c.clientEphPub ∧ c'.salt = c.salt

/-- The bytes of the context in the input of the MAC. -/
def bytes : Bytes := cookieIP c.clientIP ++ c.clientEphPub ++ c.salt

/-- An IPv4 client and an IPv6 client whose fields are the same bytes, cut twelve bytes later. -/
def Shifted : Prop :=
  (cookieIP c.clientIP).length = 4 ∧ 12 ≤ c.salt.length ∧
    cookieIP c'.clientIP = cookieIP c.clientIP ++ c.clientEphPub.take 12 ∧
    c'.clientEphPub = c.clientEphPub.drop 12 ++ c.salt.take 12 ∧ c'.salt = c.salt.drop 12

variable {c c'}

theorem length_cookieIP :
    (cookieIP c.clientIP).length = 4 ∨ (cookieIP c.clientIP).length = 16 :=
  Addr.length_to4 c.length_clientIP

/-- With addresses of one length the fields can be told apart. -/
theorem bytes_eq_iff_same
    (hip : (cookieIP c.clientIP).length = (cookieIP c'.clientIP).length) :
    c.bytes = c'.bytes ↔ c.Same c' := by
  have heph : c.clientEphPub.length = c'.clientEphPub.length :=
    c.length_clientEphPub.trans c'.length_clientEphPub.symm
  have haddr := Addr.to4_eq_iff c'.length_clientIP c.length_clientIP
  unfold bytes Same
  rw [← haddr]
  constructor
  · intro h
    obtain ⟨hfront, hsalt⟩ := List.append_inj h (by rw [List.length_append, List.length_append]; omega)
    obtain ⟨hip, heph⟩ := List.append_inj hfront hip
    exact ⟨hip.symm, heph.symm, hsalt.symm⟩
  · rintro ⟨hip, heph, hsalt⟩
    rw [heph, hsalt]
    exact congrArg (· ++ c.clientEphPub ++ c.salt) hip.symm

/-- An IPv4 and an IPv6 client have the same bytes if the fields are shifted. -/
theorem bytes_eq_iff_shifted (hip : (cookieIP c.clientIP).length = 4)
    (hip' : (cookieIP c'.clientIP).length = 16) : c.bytes = c'.bytes ↔ c.Shifted c' := by
  have heph := c.length_clientEphPub
  have heph' := c'.length_clientEphPub
  unfold keySize at heph heph'
  have htake : (c.clientEphPub.take 12).length = 12 := by rw [List.length_take]; omega
  have hdrop : (c.clientEphPub.drop 12).length = 20 := by rw [List.length_drop]; omega
  -- the IPv4 client's bytes, cut where those of the IPv6 client are cut
  have hcut : c.bytes = (cookieIP c.clientIP ++ c.clientEphPub.take 12) ++
      (c.clientEphPub.drop 12 ++ c.salt.take 12) ++ c.salt.drop 12 := by
    rw [bytes, List.append_assoc, List.append_assoc, List.append_assoc, List.append_assoc,
      List.take_append_drop, ← List.append_assoc (c.clientEphPub.take 12), List.take_append_drop]
  rw [hcut]
  unfold bytes Shifted
  constructor
  · intro h
    have hlen := congrArg List.length h
    simp only [List.length_append, List.length_take, List.length_drop] at hlen
    have hsalt : 12 ≤ c.salt.length := by omega
    have htakeSalt : (c.salt.take 12).length = 12 := by rw [List.length_take]; omega
    obtain ⟨hfront, hsalt'⟩ := List.append_inj h (by simp only [List.length_append]; omega)
    obtain ⟨hip', heph'⟩ := List.append_inj hfront (by rw [List.length_append]; omega)
    exact ⟨hip, hsalt, hip'.symm, heph'.symm, hsalt'.symm⟩
  · rintro ⟨-, -, hip', heph', hsalt'⟩
    rw [hip', heph', hsalt']

theorem not_same_of_length (hip : (cookieIP c.clientIP).length ≠ (cookieIP c'.clientIP).length) :
    ¬c.Same c' := by
  rintro ⟨haddr, -⟩
  rw [← Addr.to4_eq_iff c'.length_clientIP c.length_clientIP] at haddr
  exact hip (congrArg List.length haddr).symm

theorem length_of_shifted (h : c.Shifted c') :
    (cookieIP c.clientIP).length = 4 ∧ (cookieIP c'.clientIP).length = 16 := by
  obtain ⟨hip, -, hip', -⟩ := h
  have heph := c.length_clientEphPub
  unfold keySize at heph
  refine ⟨hip, ?_⟩
  rw [hip', List.length_append, List.length_take]
  omega

/-- **Contexts have the same bytes if they are the same or shifted.** -/
theorem bytes_eq_iff : c.bytes = c'.bytes ↔ c.Same c' ∨ c.Shifted c' ∨ c'.Shifted c := by
  have hnot : ∀ {d d' : Client}, (cookieIP d.clientIP).length = (cookieIP d'.clientIP).length →
      ¬d.Shifted d' := by
    intro d d' hlen h
    obtain ⟨h4, h16⟩ := length_of_shifted h
    omega
  rcases c.length_cookieIP with hip | hip <;> rcases c'.length_cookieIP with hip' | hip'
  · have hlen := hip.trans hip'.symm
    rw [bytes_eq_iff_same hlen]
    exact (or_iff_left (not_or.mpr ⟨hnot hlen, hnot hlen.symm⟩)).symm
  · rw [bytes_eq_iff_shifted hip hip', or_iff_right (not_same_of_length (by omega))]
    refine (or_iff_left fun h => ?_).symm
    exact absurd (length_of_shifted h).1 (by omega)
  · rw [eq_comm, bytes_eq_iff_shifted hip' hip, or_iff_right (not_same_of_length (by omega))]
    refine (or_iff_right fun h => ?_).symm
    exact absurd (length_of_shifted h).1 (by omega)
  · have hlen := hip.trans hip'.symm
    rw [bytes_eq_iff_same hlen]
    exact (or_iff_left (not_or.mpr ⟨hnot hlen, hnot hlen.symm⟩)).symm

end Client

/-! ## Accepting a cookie -/

/-- The lifetime in force, in seconds, when `m` seconds are asked for. -/
def cookieLifetime (m : ℤ) : ℤ := if m ≤ 0 then 30 else m

/-- The test for a maximal age of whole seconds. -/
theorem cookieFresh_seconds {m : ℤ} (hm : |m| < 2 ^ 53) (tsSec now : ℤ) :
    cookieFresh tsSec now (m * 10 ^ 9) = true ↔
      tsSec ≤ wrap64 (now + 15) ∧ wrap64 (now - tsSec) ≤ cookieLifetime m := by
  have hage : Float64.trunc (Float64.seconds
      (if m * 10 ^ 9 ≤ 0 then defaultCookieMaxAge else m * 10 ^ 9)) = cookieLifetime m := by
    unfold cookieLifetime
    by_cases hle : m ≤ 0
    · rw [if_pos (by omega), if_pos hle]
      exact Float64.trunc_seconds (m := 30) (by norm_num)
    · rw [if_neg (by omega), if_neg hle]
      exact Float64.trunc_seconds hm
  simp only [cookieFresh, hage, Bool.not_eq_true', decide_eq_false_iff_not, not_or, gt_iff_lt, not_lt]

theorem validateHandshakeCookie_iff (P : Primitives) (cookie secret clientIP clientEphPub salt : Bytes)
    (maxAge now : ℤ) :
    validateHandshakeCookie P cookie secret clientIP clientEphPub salt maxAge now = true ↔
      cookie.length = cookieSize ∧ secret ≠ [] ∧
      cookieFresh (wrap64 (getBE (cookie.take 8))) now maxAge = true ∧
      cookie.drop 8 = (P.hmacSHA256 secret
        (cookieInput clientIP clientEphPub salt (cookie.take 8))).take 24 := by
  unfold validateHandshakeCookie
  by_cases hlen : cookie.length = cookieSize <;> by_cases hsecret : secret = [] <;>
    by_cases hfresh : cookieFresh (wrap64 (getBE (cookie.take 8))) now maxAge = true <;>
    simp [hlen, hsecret, hfresh]

section Accept

variable {P : Primitives} {secret : Bytes} {c c' : Client} {ts now maxAge : ℤ}

/-- The timestamp field. -/
def cookieTime (ts : ℤ) : Bytes := putBE 8 (ts % 2 ^ 64).toNat

/-- The input of the MAC for a context. -/
def Client.input (c : Client) (ts : ℤ) : Bytes := c.bytes ++ cookieTime ts

theorem getBE_cookieTime (ts : ℤ) : wrap64 (getBE (cookieTime ts)) = wrap64 ts := by
  have hnn := Int.emod_nonneg ts (by decide : (2 ^ 64 : ℤ) ≠ 0)
  have hlt := Int.emod_lt_of_pos ts (by decide : (0 : ℤ) < 2 ^ 64)
  rw [cookieTime, getBE_putBE_of_lt (by omega), Int.toNat_of_nonneg hnn, wrap64_emod]

/-- **A fresh cookie is accepted for the contexts with the same bytes**, if its MAC does not collide
with the one that is expected. -/
theorem validate_generate_iff (hsha : ∀ m, (P.sha256 m).length = 32)
    (hmac : Set.InjOn (fun m => (P.hmacSHA256 secret m).take 24) {c.input ts, c'.input ts})
    (hfresh : cookieFresh (wrap64 ts) now maxAge = true) :
    validateHandshakeCookie P (generateHandshakeCookie P secret c.clientIP c.clientEphPub c.salt ts)
        secret c'.clientIP c'.clientEphPub c'.salt maxAge now = true ↔
      secret ≠ [] ∧ c.bytes = c'.bytes := by
  have htime : (cookieTime ts).length = 8 := length_putBE 8 _
  have hcookie : generateHandshakeCookie P secret c.clientIP c.clientEphPub c.salt ts =
      cookieTime ts ++ (P.hmacSHA256 secret (c.input ts)).take 24 := rfl
  have hlen : ((P.hmacSHA256 secret (c.input ts)).take 24).length = 24 := by
    rw [List.length_take, Primitives.hmacSHA256, hsha]
    rfl
  have hinput : (P.hmacSHA256 secret (c.input ts)).take 24 =
      (P.hmacSHA256 secret (c'.input ts)).take 24 ↔ c.bytes = c'.bytes := by
    constructor
    · intro h
      have heq : c.input ts = c'.input ts :=
        hmac (Set.mem_insert _ _) (Set.mem_insert_of_mem _ rfl) h
      exact List.append_cancel_right heq
    · intro h
      rw [Client.input, h]
      rfl
  rw [hcookie, validateHandshakeCookie_iff, List.take_left' htime, List.drop_left' htime,
    getBE_cookieTime, List.length_append, htime, hlen, ← hinput]
  constructor
  · rintro ⟨-, hsecret, -, heq⟩
    exact ⟨hsecret, heq⟩
  · rintro ⟨hsecret, heq⟩
    exact ⟨rfl, hsecret, hfresh, heq⟩

end Accept

/-- **Cookies are bound to their context, unless the secret is empty or an IPv4 and an IPv6 context
are shifted.** The MAC is taken as injective on the two inputs that are compared. -/
theorem cookie_bound_iff (P : Primitives) (hsha : ∀ m, (P.sha256 m).length = 32) (secret : Bytes)
    (c c' : Client) (ts now maxAge : ℤ)
    (hmac : Set.InjOn (fun m => (P.hmacSHA256 secret m).take 24) {c.input ts, c'.input ts})
    (hfresh : cookieFresh (wrap64 ts) now maxAge = true) :
    (validateHandshakeCookie P (generateHandshakeCookie P secret c.clientIP c.clientEphPub c.salt ts)
        secret c'.clientIP c'.clientEphPub c'.salt maxAge now = true ↔ c.Same c') ↔
      (secret = [] → ¬c.Same c') ∧ (secret ≠ [] → ¬c.Shifted c' ∧ ¬c'.Shifted c) := by
  rw [validate_generate_iff hsha hmac hfresh, Client.bytes_eq_iff]
  have hdiff : c.Shifted c' ∨ c'.Shifted c → ¬c.Same c' := by
    rintro (h | h)
    · exact Client.not_same_of_length (by have := Client.length_of_shifted h; omega)
    · exact Client.not_same_of_length (by have := Client.length_of_shifted h; omega)
  by_cases hsecret : secret = []
  · simp only [hsecret, ne_eq, not_true_eq_false, false_and, false_iff, true_imp_iff,
      false_imp_iff, and_true]
  · simp only [hsecret, ne_eq, not_false_eq_true, true_and, false_imp_iff, true_imp_iff]
    rw [← not_or]
    constructor
    · exact fun h hshift => hdiff hshift (h.mp (.inr hshift))
    · exact fun h => or_iff_left h

section Samples

/-- A client at 1.2.3.4 with a salt of 16 bytes. -/
def sampleClient : Client where
  clientIP := [1, 2, 3, 4]
  clientEphPub := List.replicate 32 7
  salt := List.replicate 16 9
  length_clientIP := .inl rfl
  length_clientEphPub := rfl

/-- The same client with the address as ::ffff:1.2.3.4. -/
def mappedClient : Client where
  clientIP := Addr.v4InV6Prefix ++ [1, 2, 3, 4]
  clientEphPub := List.replicate 32 7
  salt := List.replicate 16 9
  length_clientIP := .inr rfl
  length_clientEphPub := rfl

/-- A client at 102:304:707:707:707:707:707:707, with another key and a salt of four bytes. -/
def shiftedClient : Client where
  clientIP := [1, 2, 3, 4] ++ List.replicate 12 7
  clientEphPub := List.replicate 20 7 ++ List.replicate 12 9
  salt := List.replicate 4 9
  length_clientIP := .inr rfl
  length_clientEphPub := rfl

theorem cookieFresh_sample : cookieFresh (wrap64 1000) 1010 (30 * 10 ^ 9) = true :=
  (cookieFresh_seconds (by norm_num) _ _).mpr (by decide)

/-- A cookie for an IPv4 address is accepted for the mapped one. -/
theorem cookie_accepted_mapped :
    validateHandshakeCookie .sample (generateHandshakeCookie .sample [5] sampleClient.clientIP
        sampleClient.clientEphPub sampleClient.salt 1000) [5] mappedClient.clientIP
        mappedClient.clientEphPub mappedClient.salt (30 * 10 ^ 9) 1010 = true ↔
      sampleClient.Same mappedClient := by
  have hinput : sampleClient.input 1000 = mappedClient.input 1000 := by decide +kernel
  refine (cookie_bound_iff .sample sample_lawful.length_sha256 [5] sampleClient mappedClient 1000 1010
    (30 * 10 ^ 9) ?_ cookieFresh_sample).mpr ⟨fun h => ?_, fun _ => ⟨?_, ?_⟩⟩
  · rw [hinput, Set.pair_eq_singleton]
    exact Set.injOn_singleton _ _
  · cases h
  · exact fun h => absurd (Client.length_of_shifted h).2 (by decide +kernel)
  · exact fun h => absurd (Client.length_of_shifted h).2 (by decide +kernel)

/-- The cookie of an IPv4 client is accepted for an IPv6 client with another key and another salt. -/
theorem cookie_accepted_shifted :
    Set.InjOn (fun m => (Primitives.sample.hmacSHA256 [5] m).take 24)
        {sampleClient.input 1000, shiftedClient.input 1000} ∧
      validateHandshakeCookie .sample (generateHandshakeCookie .sample [5] sampleClient.clientIP
        sampleClient.clientEphPub sampleClient.salt 1000) [5] shiftedClient.clientIP
        shiftedClient.clientEphPub shiftedClient.salt (30 * 10 ^ 9) 1010 = true ∧
      ¬sampleClient.Same shiftedClient := by
  have hinput : sampleClient.input 1000 = shiftedClient.input 1000 := by decide +kernel
  have hmac : Set.InjOn (fun m => (Primitives.sample.hmacSHA256 [5] m).take 24)
      {sampleClient.input 1000, shiftedClient.input 1000} := by
    rw [hinput, Set.pair_eq_singleton]
    exact Set.injOn_singleton _ _
  refine ⟨hmac, ?_, ?_⟩
  · exact (validate_generate_iff sample_lawful.length_sha256 hmac cookieFresh_sample).mpr
      ⟨by decide, List.append_cancel_right hinput⟩
  · exact Client.not_same_of_length (by decide +kernel)

end Samples

end ObsidianVPN.Handshake
