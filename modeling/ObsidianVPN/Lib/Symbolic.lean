import Mathlib

/-!
# Symbolic messages

Messages of cryptographic protocols as terms over names, with Diffie–Hellman, a KEM, key derivation,
MACs and AEAD, and the terms an attacker can deduce from those it sees (`Knows`).

`Safe secret Made` describes what an attacker may come to know while names in `secret` are used only
as scalars of published powers of the generator, and only MACs that satisfy `Made` are published under
other keys.

* **`Knows.safe`**: if every observed term is safe, so is every deducible one;
* `Safe.macsMade`, `made_of_macsMade`: a MAC inside a known message, also inside one that is
  encrypted under an unknown key, was made honestly if its key is not safe;
* `not_safe_point`: a power of the generator with two secret scalars is not safe.
-/

namespace Symbolic

/-- Messages over the names `ν`. A `point` is a base with the scalars that have been applied to it:
names, and codes of other terms. -/
inductive Term (ν : Type) where
  | name (n : ν)
  | label (i : ℕ)
  | num (z : ℤ)
  | gen
  | point (base : Term ν) (names : Multiset ν) (others : Multiset ℕ)
  | ek (dk : Term ν)
  | kct (e coins : Term ν)
  | kss (e coins : Term ν)
  | krej (dk c : Term ν)
  | kdf (purpose : ℕ) (secret info : Term ν)
  | mac (key data : Term ν)
  | aead (key nonce plaintext aad : Term ν)
  | nonce (iv : Term ν) (ctr : ℕ)
  | nil
  | pair (a b : Term ν)

namespace Term

variable {ν : Type}

/-- Equality of terms, as a computation: equal multisets need not be equal lists. -/
def beq [DecidableEq ν] : Term ν → Term ν → Bool
  | name m, name n => decide (m = n)
  | label i, label j => decide (i = j)
  | num y, num z => decide (y = z)
  | gen, gen => true
  | point b s o, point b' s' o' => beq b b' && decide (s = s') && decide (o = o')
  | ek t, ek t' => beq t t'
  | kct t u, kct t' u' => beq t t' && beq u u'
  | kss t u, kss t' u' => beq t t' && beq u u'
  | krej t u, krej t' u' => beq t t' && beq u u'
  | kdf i t u, kdf i' t' u' => decide (i = i') && beq t t' && beq u u'
  | mac t u, mac t' u' => beq t t' && beq u u'
  | aead t u v x, aead t' u' v' x' => beq t t' && beq u u' && beq v v' && beq x x'
  | nonce t i, nonce t' i' => beq t t' && decide (i = i')
  | nil, nil => true
  | pair t u, pair t' u' => beq t t' && beq u u'
  | _, _ => false

theorem beq_iff [DecidableEq ν] {t u : Term ν} : t.beq u = true ↔ t = u := by
  induction t generalizing u <;> cases u <;>
    simp only [beq, Bool.and_eq_true, decide_eq_true_eq, and_assoc, reduceCtorEq, Bool.false_eq_true,
      name.injEq, label.injEq, num.injEq, point.injEq, ek.injEq, kct.injEq, kss.injEq, krej.injEq,
      kdf.injEq, mac.injEq, aead.injEq, nonce.injEq, pair.injEq, *]

instance [DecidableEq ν] : DecidableEq (Term ν) := fun _ _ => decidable_of_iff _ beq_iff

/-- The scalar a term stands for. -/
def scalar (code : Term ν → ℕ) : Term ν → Multiset ν × Multiset ℕ
  | name n => ({n}, 0)
  | t => (0, {code t})

/-- Scalar multiplication. A term that is not a point is the base of one. -/
def dh (code : Term ν → ℕ) (x : Term ν) : Term ν → Term ν
  | point b s o => point b (s + (x.scalar code).1) (o + (x.scalar code).2)
  | t => point t (x.scalar code).1 (x.scalar code).2

/-- The public key of a name. -/
def pub (n : ν) : Term ν := point gen {n} 0

@[simp] theorem dh_name_pub (code : Term ν → ℕ) (a b : ν) :
    dh code (name a) (pub b) = point gen {a, b} 0 := by
  simp only [dh, pub, scalar, Multiset.add_zero]
  rw [add_comm, Multiset.singleton_add]
  rfl

theorem mem_of_dh_eq_point {code : Term ν → ℕ} {a : ν} {p b : Term ν} {s : Multiset ν}
    {o : Multiset ℕ} (h : dh code (name a) p = point b s o) : a ∈ s := by
  cases p <;> simp only [dh, scalar, point.injEq] at h <;> rw [← h.2.1] <;> simp

/-- The fields of a message one after the other. -/
def tuple : List (Term ν) → Term ν
  | [] => nil
  | t :: ts => pair t (tuple ts)

variable [DecidableEq ν]

/-- Decapsulation; a ciphertext for another key gives a value of its own. -/
def decap (dk : Term ν) : Term ν → Term ν
  | kct e coins => if e = ek dk then kss e coins else krej dk (kct e coins)
  | c => krej dk c

theorem eq_of_decap_eq_kss {dk c e coins : Term ν} (h : decap dk c = kss e coins) : e = ek dk := by
  cases c <;> simp only [decap, reduceCtorEq] at h
  split at h
  · rename_i heq
    cases h
    exact heq
  · cases h

/-- Decryption. -/
def openWith (key nonce : Term ν) (c aad : Term ν) : Option (Term ν) :=
  match c with
  | aead k n p a => if k = key ∧ n = nonce ∧ a = aad then some p else none
  | _ => none

theorem openWith_eq_some {key nonce c aad p : Term ν} :
    openWith key nonce c aad = some p ↔ c = aead key nonce p aad := by
  constructor
  · intro h
    unfold openWith at h
    split at h
    · split at h
      · rename_i hk
        obtain ⟨rfl, rfl, rfl⟩ := hk
        cases h
        rfl
      · cases h
    · cases h
  · rintro rfl
    simp [openWith]

end Term

open Term

variable {ν : Type}

/-! ## Safe terms -/

section Safe

variable (secret : ν → Bool) (Made : Term ν → Term ν → Prop)

/-- The number of secret names among the scalars. -/
def secrets (s : Multiset ν) : ℕ := s.countP fun n => secret n = true

mutual

/-- What an attacker may come to know. -/
def Safe : Term ν → Prop
  | .name n => secret n = false
  | .point b s _ => Safe b ∧
      (secrets secret s = 0 ∨ b = .gen ∧ secrets secret s = 1)
  | .kdf _ s _ => Safe s
  | .mac k d => (Safe k ∧ Safe d) ∨ Made k d
  | .aead k _ p _ => (Safe k → Safe p) ∧ MacsMade p
  | .nonce iv _ => Safe iv
  | .pair a b => Safe a ∧ Safe b
  | .label _ => True
  | .num _ => True
  | .gen => True
  | .ek _ => True
  | .kct _ _ => True
  | .kss _ _ => True
  | .krej _ _ => True
  | .nil => True

/-- The MACs among the fields of a message are safe. -/
def MacsMade : Term ν → Prop
  | .mac k d => (Safe k ∧ Safe d) ∨ Made k d
  | .pair a b => MacsMade a ∧ MacsMade b
  | .name _ => True
  | .point _ _ _ => True
  | .kdf _ _ _ => True
  | .aead _ _ _ _ => True
  | .nonce _ _ => True
  | .label _ => True
  | .num _ => True
  | .gen => True
  | .ek _ => True
  | .kct _ _ => True
  | .kss _ _ => True
  | .krej _ _ => True
  | .nil => True

end

attribute [local simp] Safe MacsMade

variable {secret Made}

theorem Safe.macsMade {t : Term ν} (h : Safe secret Made t) : MacsMade secret Made t := by
  induction t with
  | mac k d => simpa only [Safe, MacsMade] using h
  | pair a b iha ihb =>
    simp only [Safe, MacsMade] at h ⊢
    exact ⟨iha h.1, ihb h.2⟩
  | _ => simp only [MacsMade]

theorem made_of_macsMade {k d : Term ν} (h : MacsMade secret Made (.mac k d))
    (hk : ¬Safe secret Made k) : Made k d := by
  simp only [MacsMade] at h
  exact h.resolve_left fun hs => hk hs.1

theorem safe_tuple {ts : List (Term ν)} :
    Safe secret Made (tuple ts) ↔ ∀ t ∈ ts, Safe secret Made t := by
  induction ts with
  | nil => simp [tuple]
  | cons t ts ih => simp only [tuple, Safe, ih, List.forall_mem_cons]

theorem macsMade_tuple {ts : List (Term ν)} :
    MacsMade secret Made (tuple ts) ↔ ∀ t ∈ ts, MacsMade secret Made t := by
  induction ts with
  | nil => simp [tuple]
  | cons t ts ih => simp only [tuple, MacsMade, ih, List.forall_mem_cons]

/-- An encrypted tuple is safe if its fields are safe for those who know the key, and its MACs in any
case. -/
theorem safe_aead_tuple {k n a : Term ν} {ts : List (Term ν)}
    (hsafe : Safe secret Made k → ∀ t ∈ ts, Safe secret Made t)
    (hmade : ∀ t ∈ ts, MacsMade secret Made t) : Safe secret Made (.aead k n (tuple ts) a) := by
  simp only [Safe]
  exact ⟨fun hk => safe_tuple.mpr (hsafe hk), macsMade_tuple.mpr hmade⟩

theorem secrets_cons (n : ν) (s : Multiset ν) :
    secrets secret (n ::ₘ s) = secrets secret s + if secret n then 1 else 0 :=
  Multiset.countP_cons _ n s

theorem secrets_singleton (n : ν) : secrets secret {n} = if secret n then 1 else 0 := by
  rw [← Multiset.cons_zero, secrets_cons, secrets, Multiset.countP_zero, Nat.zero_add]

theorem not_safe_point {a b : ν} (ha : secret a = true) (hb : secret b = true) (o : Multiset ℕ) :
    ¬Safe secret Made (.point .gen {a, b} o) := by
  have hcount : secrets secret {a, b} = 2 := by
    rw [Multiset.insert_eq_cons, secrets_cons, secrets_singleton, if_pos ha, if_pos hb]
  simp only [Safe, hcount]
  omega

theorem safe_pub (n : ν) : Safe secret Made (pub n) := by
  simp only [pub, Safe, secrets_singleton, true_and]
  cases secret n <;> simp

theorem Safe.point {b : Term ν} {s : Multiset ν} (hb : Safe secret Made b)
    (hs : secrets secret s = 0) (o : Multiset ℕ) : Safe secret Made (.point b s o) := by
  simp only [Safe]
  exact ⟨hb, .inl hs⟩

theorem Safe.dh {code : Term ν → ℕ} {x p : Term ν} (hx : Safe secret Made x)
    (hp : Safe secret Made p) : Safe secret Made (dh code x p) := by
  -- the scalar of a safe term is not a secret name
  have hscalar : secrets secret (x.scalar code).1 = 0 := by
    cases x with
    | name n =>
      simp only [Safe] at hx
      simp [scalar, secrets_singleton, hx]
    | _ => rfl
  cases p with
  | point b s o =>
    have hadd : secrets secret (s + (x.scalar code).1) = secrets secret s := by
      rw [secrets, Multiset.countP_add, ← secrets, ← secrets, hscalar, Nat.add_zero]
    simp only [Term.dh, Safe, hadd] at hp ⊢
    exact hp
  | _ => exact hp.point hscalar _

end Safe

/-! ## Deduction -/

variable [DecidableEq ν] {secret : ν → Bool} {Made : Term ν → Term ν → Prop}

/-- What an attacker deduces from the terms it has observed and from the public names. -/
inductive Knows (code : Term ν → ℕ) (open_ : ν → Prop) (observed : Term ν → Prop) : Term ν → Prop
  | observed {t} : observed t → Knows code open_ observed t
  | name {n} : open_ n → Knows code open_ observed (name n)
  | label (i) : Knows code open_ observed (label i)
  | num (z) : Knows code open_ observed (num z)
  | gen : Knows code open_ observed gen
  | dh {x p} : Knows code open_ observed x → Knows code open_ observed p →
      Knows code open_ observed (dh code x p)
  | ek {dk} : Knows code open_ observed dk → Knows code open_ observed (ek dk)
  | kct {e coins} : Knows code open_ observed e → Knows code open_ observed coins →
      Knows code open_ observed (kct e coins)
  | kss {e coins} : Knows code open_ observed e → Knows code open_ observed coins →
      Knows code open_ observed (kss e coins)
  | decap {dk c} : Knows code open_ observed dk → Knows code open_ observed c →
      Knows code open_ observed (decap dk c)
  | kdf (i) {s info} : Knows code open_ observed s → Knows code open_ observed info →
      Knows code open_ observed (kdf i s info)
  | mac {k d} : Knows code open_ observed k → Knows code open_ observed d →
      Knows code open_ observed (mac k d)
  | aead {k n p a} : Knows code open_ observed k → Knows code open_ observed n →
      Knows code open_ observed p → Knows code open_ observed a →
      Knows code open_ observed (aead k n p a)
  | decrypt {k n p a} : Knows code open_ observed (.aead k n p a) → Knows code open_ observed k →
      Knows code open_ observed p
  | nonce {iv} (ctr) : Knows code open_ observed iv → Knows code open_ observed (nonce iv ctr)
  | baseIV {iv ctr} : Knows code open_ observed (.nonce iv ctr) → Knows code open_ observed iv
  | nil : Knows code open_ observed nil
  | pair {a b} : Knows code open_ observed a → Knows code open_ observed b →
      Knows code open_ observed (pair a b)
  | fst {a b} : Knows code open_ observed (.pair a b) → Knows code open_ observed a
  | snd {a b} : Knows code open_ observed (.pair a b) → Knows code open_ observed b

theorem safe_decap (dk c : Term ν) : Safe secret Made (decap dk c) := by
  cases c with
  | kct e coins => simp only [Term.decap]; split <;> simp only [Safe]
  | _ => simp only [Term.decap, Safe]

/-- **Deduction stays among the safe terms.** -/
theorem Knows.safe {code : Term ν → ℕ} {open_ : ν → Prop} {observed : Term ν → Prop}
    (hopen : ∀ n, open_ n → secret n = false) (hobs : ∀ t, observed t → Safe secret Made t)
    {t : Term ν} (h : Knows code open_ observed t) : Safe secret Made t := by
  induction h with
  | observed h => exact hobs _ h
  | name h => simpa only [Safe] using hopen _ h
  | dh _ _ hx hp => exact hx.dh hp
  | decap => exact safe_decap _ _
  | kdf _ _ _ hs _ => simpa only [Safe] using hs
  | mac _ _ hk hd => simpa only [Safe] using .inl ⟨hk, hd⟩
  | aead _ _ _ _ _ _ hp _ =>
    simp only [Safe]
    exact ⟨fun _ => hp, hp.macsMade⟩
  | decrypt _ _ hc hk =>
    simp only [Safe] at hc
    exact hc.1 hk
  | nonce _ _ hiv => simpa only [Safe] using hiv
  | baseIV _ h => simpa only [Safe] using h
  | pair _ _ ha hb => simpa only [Safe] using ⟨ha, hb⟩
  | fst _ h =>
    simp only [Safe] at h
    exact h.1
  | snd _ h =>
    simp only [Safe] at h
    exact h.2
  | _ => simp only [Safe]

end Symbolic
