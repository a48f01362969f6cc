import ObsidianVPN.Handshake.Cookie
import ObsidianVPN.Handshake.Core
import ObsidianVPN.Reality.Token

/-!
# Freshness of timestamps

Three places compare a signed 64-bit timestamp with the clock: the ClientHello, the REALITY token and
the handshake cookie. Each computes the difference in 64 bits, where it may wrap around, and compares
it in its own way.

* `helloFresh`: the test of `ProcessClientHello`; `authenticate_ok_iff_fresh`, `authenticate_of_stale`;
* `sub_cases`: the difference is right, or the timestamp is `2 ^ 63` or more seconds ago;
* **`freshness_exact_iff`**: the test of the token is exact, that of the ClientHello unless the
  timestamp is exactly `2 ^ 63` seconds ago, and that of the cookie unless it is as long ago or longer.
-/

namespace ObsidianVPN.Handshake

open ByteStr Reality

/-- The test of `ProcessClientHello` for the timestamp. -/
def helloFresh (ts now : ℤ) : Bool := !decide (abs64 (wrap64 (now - ts)) > replayWindowSec)

theorem helloFresh_iff (ts now : ℤ) :
    helloFresh ts now = true ↔ abs64 (wrap64 (now - ts)) ≤ replayWindowSec := by
  simp [helloFresh]

section Source

variable {M : Type} [DecidableEq M] {S : Suite M} {s : ServerHandshake M} {hello : ClientHello M}
  {o : Opened M} {now : ℤ}

theorem authenticate_ok_iff_fresh :
    s.authenticate S hello o now = .ok () ↔
      helloFresh (S.getTime o.identity.ts) now = true ∧
      (∃ staticShared, S.dhSafe s.staticPriv o.identity.staticPub = .ok staticShared ∧
        o.identity.proof = clientProof S staticShared o.tmpKeys.dynamicMagic hello.ephPub
          hello.mlkemPub hello.salt o.identity.ts) ∧
      ∀ allowed, s.allowedClients = some allowed → o.identity.staticPub ∈ allowed := by
  rw [authenticate_ok, helloFresh_iff]

theorem authenticate_of_stale (h : helloFresh (S.getTime o.identity.ts) now = false) :
    s.authenticate S hello o now =
      .error s!"replay/clock skew: delta={abs64 (wrap64 (now - S.getTime o.identity.ts))}s" := by
  rw [helloFresh, Bool.not_eq_false', decide_eq_true_eq] at h
  simp only [ServerHandshake.authenticate, if_pos h]

end Source

/-! ## The three tests -/

section Tests

variable {now ts : ℤ} (hnow : 0 ≤ now) (hnow' : now < 2 ^ 40) (hts : -2 ^ 63 ≤ ts) (hts' : ts < 2 ^ 63)

include hnow hnow' hts hts'

/-- The difference does not wrap around, or the timestamp is extremely old. -/
theorem sub_cases :
    (now - ts < 2 ^ 63 ∧ wrap64 (now - ts) = now - ts) ∨
      (2 ^ 63 ≤ now - ts ∧ wrap64 (now - ts) = now - ts - 2 ^ 64) := by
  by_cases hlt : now - ts < 2 ^ 63
  · exact .inl ⟨hlt, wrap64_of_bounds (by omega) hlt⟩
  · exact .inr ⟨by omega, wrap64_of_ge (by omega) (by omega)⟩

theorem helloFresh_exact_iff :
    (helloFresh ts now = true ↔ |now - ts| ≤ 30) ↔ now - ts ≠ 2 ^ 63 := by
  rw [helloFresh_iff, replayWindowSec, abs_le]
  rcases sub_cases hnow hnow' hts hts' with ⟨hlt, hsub⟩ | ⟨hge, hsub⟩
  · have habs : abs64 (now - ts) = max (now - ts) (-(now - ts)) := by
      unfold abs64
      split
      · rw [wrap64_of_bounds (by omega) (by omega)]
        omega
      · omega
    rw [hsub, habs]
    omega
  · rw [hsub, abs64, if_pos (by omega)]
    -- the least integer is its own absolute value
    by_cases hmin : now - ts = 2 ^ 63
    · rw [hmin]
      decide
    · rw [wrap64_of_bounds (by omega) (by omega)]
      omega

theorem tokenFresh_exact {w : ℤ} (hw : 1 ≤ w) (hw' : w < 2 ^ 31) :
    tokenFresh ts now w = true ↔ |now - ts| ≤ w := by
  rw [abs_le]
  simp only [tokenFresh, if_neg (not_le.mpr (show 0 < w by omega)), Bool.not_eq_true',
    decide_eq_false_iff_not, not_or, not_lt, gt_iff_lt]
  rcases sub_cases hnow hnow' hts hts' with ⟨hlt, hsub⟩ | ⟨hge, hsub⟩
  · rw [hsub]
  · rw [hsub]
    omega

theorem cookieFresh_exact_iff {m : ℤ} (hm : -2 ^ 63 ≤ m * 10 ^ 9) (hm' : m * 10 ^ 9 < 2 ^ 63) :
    (cookieFresh ts now (m * 10 ^ 9) = true ↔ -15 ≤ now - ts ∧ now - ts ≤ cookieLifetime m) ↔
      now - ts < 2 ^ 63 := by
  have hlife : cookieLifetime m < 2 ^ 63 := by
    unfold cookieLifetime
    split <;> omega
  have hlife' : 0 < cookieLifetime m := by
    unfold cookieLifetime
    split <;> omega
  rw [cookieFresh_seconds (abs_lt.mpr ⟨by omega, by omega⟩), wrap64_of_bounds (by omega) (by omega)]
  rcases sub_cases hnow hnow' hts hts' with ⟨hlt, hsub⟩ | ⟨hge, hsub⟩
  · rw [hsub]
    omega
  · rw [hsub]
    omega

/-- The test of the cookie for the given number of seconds, where the default replaces a number that
is not positive. -/
theorem cookieFresh_literal_iff {m : ℤ} (hm : -2 ^ 63 ≤ m * 10 ^ 9) (hm' : m * 10 ^ 9 < 2 ^ 63) :
    (cookieFresh ts now (m * 10 ^ 9) = true ↔ -15 ≤ now - ts ∧ now - ts ≤ m) ↔
      now - ts < 2 ^ 63 ∧ (1 ≤ m ∨ now - ts < -15 ∨ now - ts ≤ m ∨ 30 < now - ts) := by
  have hexact := cookieFresh_exact_iff hnow hnow' hts hts' hm hm'
  rcases lt_or_ge (now - ts) (2 ^ 63) with hlt | hge
  · rw [hexact.mpr hlt]
    unfold cookieLifetime
    split <;> omega
  · have hpass : cookieFresh ts now (m * 10 ^ 9) = true := by
      by_contra hfail
      refine absurd (hexact.mp ⟨fun h => absurd h hfail, fun h => ?_⟩) (not_lt.mpr hge)
      have : cookieLifetime m < 2 ^ 63 := by
        unfold cookieLifetime
        split <;> omega
      omega
    simp only [hpass, true_iff]
    omega

end Tests

/-- **Which freshness tests are exact.** For a clock of 40 bits and every 64-bit timestamp: the test
of the token always is; the other two are exactly if the difference does not wrap around, and for the
ClientHello also if it wraps to anything but the least integer. For a lifetime that is not positive a
cookie lives 30 seconds. -/
theorem freshness_exact_iff (now ts w m : ℤ) (hnow : 0 ≤ now) (hnow' : now < 2 ^ 40)
    (hts : -2 ^ 63 ≤ ts) (hts' : ts < 2 ^ 63) (hw : 1 ≤ w) (hw' : w < 2 ^ 31)
    (hm : -2 ^ 63 ≤ m * 10 ^ 9) (hm' : m * 10 ^ 9 < 2 ^ 63) :
    ((helloFresh ts now = true ↔ |now - ts| ≤ 30) ↔ now - ts ≠ 2 ^ 63) ∧
      (tokenFresh ts now w = true ↔ |now - ts| ≤ w) ∧
      ((cookieFresh ts now (m * 10 ^ 9) = true ↔ -15 ≤ now - ts ∧ now - ts ≤ m) ↔
        now - ts < 2 ^ 63 ∧ (1 ≤ m ∨ now - ts < -15 ∨ now - ts ≤ m ∨ 30 < now - ts)) :=
  ⟨helloFresh_exact_iff hnow hnow' hts hts', tokenFresh_exact hnow hnow' hts hts' hw hw',
    cookieFresh_literal_iff hnow hnow' hts hts' hm hm'⟩

theorem freshness_exact_recent :
    helloFresh 1000 1030 = true ∧ tokenFresh 1000 1030 29 = false ∧
      cookieFresh 1000 1030 (60 * 10 ^ 9) = true := by
  obtain ⟨hhello, htoken, hcookie⟩ := freshness_exact_iff 1030 1000 29 60 (by decide) (by decide)
    (by decide) (by decide) (by decide) (by decide) (by decide) (by decide)
  refine ⟨(hhello.mpr (by decide)).mpr (by decide), ?_, (hcookie.mpr (by decide)).mpr (by decide)⟩
  exact Bool.eq_false_iff.mpr fun h => absurd (htoken.mp h) (by decide)

/-- At the Unix time 1700000000 a timestamp that is `2 ^ 63` seconds old passes for a ClientHello and
for a cookie. -/
theorem ancient_timestamp_passes :
    helloFresh (1700000000 - 2 ^ 63) 1700000000 = true ∧
      cookieFresh (1700000000 - 2 ^ 63) 1700000000 (30 * 10 ^ 9) = true ∧
      ¬|(1700000000 : ℤ) - (1700000000 - 2 ^ 63)| ≤ 30 ∧
      ¬(1700000000 : ℤ) - (1700000000 - 2 ^ 63) ≤ 30 := by
  refine ⟨by decide, ?_, by decide, by decide⟩
  exact (cookieFresh_seconds (by norm_num) _ _).mpr (by decide)

end ObsidianVPN.Handshake
