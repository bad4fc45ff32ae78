import Conest.Nostr.GroupLaw

/-!
# Keys and signatures of secp256k1

A key is the `x` of a point, and stands for the one of the two points with that `x` whose `y` is
even. Of a scalar and its opposite one gives an even `y` (`exists_even`), and `liftX` finds that
point (`liftX_of_normal`). So the signs of `y` do not matter: what is signed is verified
(`verify_sign`), and both sides of a key agreement get the same `x` (`sharedX_comm`).
-/

namespace Conest
namespace Nostr
namespace Secp256k1

open Lib Lib.Jacobian List Option

variable {a b : Point} {P Q : CurvePoint}

/-! ### Numbers in bytes -/

variable {k d : ℕ} {secretKey : Bytes}

theorem toInt_eq (bytes : Bytes) : toInt bytes = ofBigEndian bytes := by
  have hfold : ∀ result, bytes.foldl (fun result byte => (result <<< 8) ||| byte.toNat) result =
      result * 256 ^ bytes.length + ofBigEndian bytes := by
    induction bytes with
    | nil =>
      intro result
      simp [ofBigEndian]
    | cons byte bytes ih =>
    intro result
    have hor : (result <<< 8) ||| byte.toNat = result * 256 + byte.toNat := by
      rw [← Nat.shiftLeft_add_eq_or_of_lt byte.toNat_lt, Nat.shiftLeft_eq]
    rw [foldl_cons, ih, hor, ofBigEndian, length_cons]
    ring
  rw [toInt, hfold, Nat.zero_mul, Nat.zero_add]

theorem toInt_toBytes {value : ℤ} (h : 0 ≤ value ∧ value < 2 ^ 256) :
    (toInt (toBytes value) : ℤ) = value := by
  have hsize : value.toNat < 256 ^ 32 := by omega
  rw [toInt_eq, toBytes, ofBigEndian_bigEndian, Nat.mod_eq_of_lt hsize]
  exact Int.toNat_of_nonneg h.1

theorem length_toBytes (value : ℤ) : (toBytes value).length = 32 := bigEndian_length 32 _

theorem toInt_x (h : Reduced a) : (toInt (toBytes a.x) : ℤ) = a.x := by
  have hp : (p : ℤ) < 2 ^ 256 := by decide
  exact toInt_toBytes ⟨h.x.1, h.x.2.trans hp⟩

theorem toInt_scalar (h : k < n) : toInt (toBytes (k : ℤ)) = k := by
  have hn : n < 2 ^ 256 := by decide
  have hk : (0 : ℤ) ≤ k ∧ (k : ℤ) < 2 ^ 256 := by omega
  have hcast := toInt_toBytes hk
  exact_mod_cast hcast

/-! ### Scalars -/

theorem secretScalar_bounds (h : secretScalar secretKey = some d) : 0 < d ∧ d < n := by
  unfold secretScalar at h
  split at h
  · cases h
  dsimp only at h
  split at h
  · cases h
  next hrange =>
  obtain rfl := some.inj h
  omega

theorem nsmul_ne_zero (hpos : 0 < k) (hlt : k < n) : k • generator ≠ 0 := by
  rw [Ne, nsmul_eq_zero_iff]
  exact fun hdvd => absurd (Nat.le_of_dvd hpos hdvd) (not_le.mpr hlt)

theorem exists_affine_mul (hpos : 0 < k) (hlt : k < n) :
    ∃ q, (mul g k).affine = some q ∧ Normal q (k • generator) :=
  exists_affine (represents_mul represents_g k) (nsmul_ne_zero hpos hlt)

theorem opposite_nsmul (hlt : k < n) : (n - k) • generator = -(k • generator) := by
  have hsum : (n - k) • generator + k • generator = 0 := by
    rw [← add_nsmul, Nat.sub_add_cancel hlt.le]
    exact (nsmul_eq_zero_iff n).mpr dvd_rfl
  exact eq_neg_of_add_eq_zero_left hsum

theorem exists_even (hpos : 0 < k) (hlt : k < n) (h : Normal a (k • generator)) :
    ∃ b, Normal b ((if a.y % 2 = 0 then k else n - k) • generator) ∧ b.x = a.x ∧ b.y % 2 = 0 := by
  split
  next heven =>
    exact ⟨a, h, rfl, heven⟩
  obtain ⟨b, -, hb⟩ := exists_affine_mul (show 0 < n - k by omega) (show n - k < n by omega)
  rw [opposite_nsmul hlt] at hb ⊢
  refine ⟨b, hb, ((h.x_eq_iff hb).mpr (.inr (neg_neg _).symm)).symm, ?_⟩
  have hodd := p_odd
  rcases h.y_of_neg hb with hsum | ⟨hzero, -⟩ <;> omega

/-! ### The point of a key -/

theorem sqrt_of_square (y : ZMod p) : ((y ^ 2) ^ sqrtExponent) ^ 2 = y ^ 2 := by
  have hexponent : 2 * (sqrtExponent * 2) = p + 1 := by decide
  rw [← pow_mul, ← pow_mul, hexponent, pow_succ, ZMod.pow_card, sq]

theorem cast_modPow (base exponent : ℕ) :
    ((modPow base exponent p : ℕ) : ZMod p) = (base : ZMod p) ^ exponent := by
  rw [modPow_eq, ZMod.natCast_mod, Nat.cast_pow]

theorem modPow_lt (base exponent : ℕ) : modPow base exponent p < p := by
  rw [modPow_eq]
  exact Nat.mod_lt _ prime_p.pos

theorem normal_of_liftX {x : ℕ} {q : Point} (h : liftX x = some q) :
    (∃ Q, Normal q Q) ∧ q.x = x ∧ q.y % 2 = 0 := by
  unfold liftX at h
  split at h
  · cases h
  next hx =>
  dsimp only at h
  split at h
  · cases h
  next hroot =>
  rw [not_not] at hroot
  obtain rfl := some.inj h
  have hy := modPow_lt ((modPow x 3 p + 7) % p) sqrtExponent
  have hodd := p_odd
  have hsquare : ((modPow ((modPow x 3 p + 7) % p) sqrtExponent p : ℕ) : ZMod p) ^ 2 =
      (x : ZMod p) ^ 3 + 7 := by
    rw [← cast_modPow, hroot, ZMod.natCast_mod, Nat.cast_add, cast_modPow, Nat.cast_ofNat]
  generalize modPow ((modPow x 3 p + 7) % p) sqrtExponent p = y at *
  refine ⟨?_, rfl, ?_⟩
  · have honCurve : OnCurve ⟨x, if y % 2 = 0 then (y : ℤ) else p - y, 1⟩ := by
      have hunit : (0 : ℤ) ≤ 1 ∧ (1 : ℤ) < p := by decide
      have hx' : (0 : ℤ) ≤ x ∧ (x : ℤ) < p := by omega
      refine ⟨⟨hx', ?_, hunit⟩, .inr ?_⟩
      · dsimp only
        split <;> omega
      rw [← ZMod.intCast_eq_intCast_iff]
      push_cast
      rw [← hsquare]
      split
      · rfl
      · simp
    obtain ⟨Q, hQ⟩ := onCurve_iff.mp honCurve
    exact ⟨Q, hQ, rfl⟩
  · dsimp only
    split <;> omega

/-- **The point of a key is found**: the one of two opposite points with an even `y`. -/
theorem liftX_of_normal (h : Normal a P) (heven : a.y % 2 = 0) :
    liftX (toInt (toBytes a.x)) = some a := by
  have hx := toInt_x h.represents.reduced
  have hlt : ¬ toInt (toBytes a.x) ≥ p := by
    have hreduced := h.represents.reduced.x.2
    omega
  obtain ⟨q, hq⟩ : ∃ q, liftX (toInt (toBytes a.x)) = some q := by
    unfold liftX
    rw [if_neg hlt]
    dsimp only
    split
    · next hroot =>
      refine absurd ?_ hroot
      -- `y` itself is a root of what the root is taken of
      have hcurve : (a.y : ZMod p) ^ 2 = (a.x : ZMod p) ^ 3 + 7 := by
        obtain ⟨hP, -⟩ := h.exists_eq
        exact (equation_iff _ _).mp hP.1
      have hc : (((modPow (toInt (toBytes a.x)) 3 p + 7) % p : ℕ) : ZMod p) =
          (a.y : ZMod p) ^ 2 := by
        rw [ZMod.natCast_mod, Nat.cast_add, cast_modPow, hcurve]
        congr 2
        exact_mod_cast congrArg (Int.cast : ℤ → ZMod p) hx
      have hmod : (modPow (toInt (toBytes a.x)) 3 p + 7) % p < p := Nat.mod_lt _ prime_p.pos
      generalize (modPow (toInt (toBytes a.x)) 3 p + 7) % p = c at *
      have hroots : ((modPow (modPow c sqrtExponent p) 2 p : ℕ) : ZMod p) = (c : ZMod p) := by
        rw [cast_modPow, cast_modPow, hc, sqrt_of_square]
      rw [ZMod.natCast_eq_natCast_iff'] at hroots
      rwa [Nat.mod_eq_of_lt (modPow_lt _ _), Nat.mod_eq_of_lt hmod] at hroots
    · exact ⟨_, rfl⟩
  obtain ⟨⟨Q, hQ⟩, hqx, hqy⟩ := normal_of_liftX hq
  -- both have the same `x` and an even `y`
  have hsame : Q = P := hQ.eq_of_even h (hqx.trans hx) hqy heven
  rw [hsame] at hQ
  rw [hq, hQ.inj h]

/-! ### Keys -/

theorem publicKey_eq (h : secretScalar secretKey = some d) :
    ∃ q, (mul g d).affine = some q ∧ Normal q (d • generator) ∧
      publicKey secretKey = some (toBytes q.x) := by
  obtain ⟨hpos, hlt⟩ := secretScalar_bounds h
  obtain ⟨q, hq, hnormal⟩ := exists_affine_mul hpos hlt
  refine ⟨q, hq, hnormal, ?_⟩
  unfold publicKey
  rw [h, bind_eq_bind, bind_some, hq]
  rfl

theorem sharedX_eq (h : secretScalar secretKey = some d) (hpos : 0 < k) (hlt : k < n) {q : Point}
    (hq : Normal q (k • generator)) :
    ∃ r, Normal r ((d * k) • generator) ∧ sharedX secretKey (toBytes q.x) = some (toBytes r.x) := by
  obtain ⟨hd, hdlt⟩ := secretScalar_bounds h
  have hne {m : ℕ} (hm : 0 < m) (hmlt : m < n) : (d * m) • generator ≠ 0 := by
    rw [Ne, nsmul_eq_zero_iff, prime_n.dvd_mul, not_or]
    exact ⟨fun hdvd => absurd (Nat.le_of_dvd hd hdvd) (not_le.mpr hdlt),
      fun hdvd => absurd (Nat.le_of_dvd hm hdvd) (not_le.mpr hmlt)⟩
  -- the point that is found has the scalar or its opposite
  obtain ⟨b, hb, hbx, heven⟩ := exists_even hpos hlt hq
  have hlift := liftX_of_normal hb heven
  rw [hbx] at hlift
  have hmul := represents_mul hb.represents d
  obtain ⟨r, hr, hrnormal⟩ := exists_affine hmul (by
    split
    · rw [← mul_nsmul']
      exact hne hpos hlt
    · rw [← mul_nsmul']
      exact hne (by omega) (by omega))
  obtain ⟨s, -, hs⟩ := exists_affine (represents_mul represents_g (d * k)) (hne hpos hlt)
  have hx : r.x = s.x := by
    refine (hrnormal.x_eq_iff hs).mpr ?_
    split
    · left
      rw [← mul_nsmul']
    · right
      rw [opposite_nsmul hlt, mul_nsmul']
      exact neg_nsmul _ _
  refine ⟨s, hs, ?_⟩
  unfold sharedX
  rw [h, bind_eq_bind, bind_some, hlift, bind_eq_bind, bind_some, hr,
    ← hx]
  rfl

theorem sharedX_comm {a b : Bytes} {m : ℕ} (ha : secretScalar a = some k)
    (hb : secretScalar b = some m) :
    ∃ keyA keyB shared, publicKey a = some keyA ∧ publicKey b = some keyB ∧
      sharedX a keyB = some shared ∧ sharedX b keyA = some shared := by
  obtain ⟨hk, hklt⟩ := secretScalar_bounds ha
  obtain ⟨hm, hmlt⟩ := secretScalar_bounds hb
  obtain ⟨q, -, hq, hkeyA⟩ := publicKey_eq ha
  obtain ⟨r, -, hr, hkeyB⟩ := publicKey_eq hb
  obtain ⟨s, hs, hshared⟩ := sharedX_eq ha hm hmlt hr
  obtain ⟨t, ht, hshared'⟩ := sharedX_eq hb hk hklt hq
  rw [Nat.mul_comm] at ht
  rw [← hs.inj ht] at hshared'
  exact ⟨_, _, _, hkeyA, hkeyB, hshared, hshared'⟩

/-! ### Signatures -/

variable {sha256 : Bytes → Bytes}

theorem signature_scalars {e : ℕ} (he : e < n) :
    ((k + e * d) % n) • generator + (n - e) • d • generator = k • generator := by
  have hmod : ((k + e * d) % n) • generator = (k + e * d) • generator := by
    rw [← addOrderOf_generator, mod_addOrderOf_nsmul]
  have hcancel : (k + e * d) + (n - e) * d = k + n * d := by
    have hn : n = e + (n - e) := by omega
    conv_rhs => rw [hn]
    ring
  rw [hmod, ← mul_nsmul', ← add_nsmul, hcancel, add_nsmul, (nsmul_eq_zero_iff (n * d)).mpr
    (dvd_mul_right n d), add_zero]

theorem verify_sign {message aux signature : Bytes}
    (h : sign sha256 message secretKey aux = some signature) :
    ∃ key, publicKey secretKey = some key ∧ verify sha256 message key signature = true := by
  obtain ⟨d0, hd0, h⟩ := bind_eq_some_iff.mp h
  obtain ⟨hpos, hlt⟩ := secretScalar_bounds hd0
  obtain ⟨point, hpoint, hnormal, hkey⟩ := publicKey_eq hd0
  obtain ⟨keyPoint, hkeyPoint, hkeyX, hkeyEven⟩ := exists_even hpos hlt hnormal
  rw [hpoint, bind_eq_bind, bind_some] at h
  dsimp only at h
  -- the secret with an even `y`, and the nonce
  generalize (if point.y % 2 = 0 then d0 else n - d0) = d at h hkeyPoint
  have hk0lt := Nat.mod_lt (toInt (taggedHash sha256 "BIP0340/nonce"
    (toBytes (d ^^^ toInt (taggedHash sha256 "BIP0340/aux" aux) : ℕ) ++ toBytes point.x ++
      message))) prime_n.pos
  generalize toInt (taggedHash sha256 "BIP0340/nonce"
    (toBytes (d ^^^ toInt (taggedHash sha256 "BIP0340/aux" aux) : ℕ) ++ toBytes point.x ++
      message)) % n = k0 at h hk0lt
  by_cases hzero : k0 = 0
  · rw [if_pos hzero] at h
    cases h
  rw [if_neg hzero] at h
  obtain ⟨r, hr, hrNormal⟩ := exists_affine_mul (Nat.pos_of_ne_zero hzero) hk0lt
  obtain ⟨nonce, hnonce, hnonceX, hnonceEven⟩ :=
    exists_even (Nat.pos_of_ne_zero hzero) hk0lt hrNormal
  rw [hr, bind_some] at h
  generalize (if r.y % 2 = 0 then k0 else n - k0) = k at h hnonce
  have hsignature := some.inj h
  refine ⟨_, hkey, ?_⟩
  have htake : signature.take 32 = toBytes r.x := by
    rw [← hsignature, take_left' (length_toBytes _)]
  have hdrop : signature.drop 32 = toBytes (((k + toInt (taggedHash sha256 "BIP0340/challenge"
      (toBytes r.x ++ toBytes point.x ++ message)) % n * d) % n : ℕ) : ℤ) := by
    rw [← hsignature, drop_left' (length_toBytes _)]
  have hlength : signature.length = 64 := by
    rw [← hsignature, length_append, length_toBytes, length_toBytes]
  have helt := Nat.mod_lt (toInt (taggedHash sha256 "BIP0340/challenge"
      (toBytes r.x ++ toBytes point.x ++ message))) prime_n.pos
  have hlift := liftX_of_normal hkeyPoint hkeyEven
  rw [hkeyX] at hlift
  unfold verify
  rw [if_neg (by rw [length_toBytes, hlength]; decide), hlift]
  dsimp only
  rw [htake, hdrop]
  generalize toInt (taggedHash sha256 "BIP0340/challenge"
      (toBytes r.x ++ toBytes point.x ++ message)) % n = e at helt ⊢
  have hslt : (k + e * d) % n < n := Nat.mod_lt _ prime_n.pos
  have hrx := toInt_x hrNormal.represents.reduced
  have hrlt := hrNormal.represents.reduced.x.2
  rw [toInt_scalar hslt, if_neg (by omega)]
  -- what is computed is the point of the nonce
  have hresult : Represents (add (mul g ((k + e * d) % n)) (mul keyPoint (n - e)))
      (k • generator) := by
    have hsum := represents_add (represents_mul represents_g ((k + e * d) % n))
      (represents_mul hkeyPoint.represents (n - e))
    rwa [signature_scalars helt] at hsum
  have hne : k • generator ≠ 0 := hnonce.ne_zero
  obtain ⟨q, hq, hqNormal⟩ := exists_affine hresult hne
  rw [if_neg (fun hinfinity => hne (hresult.isInfinity_iff.mp hinfinity)), hq]
  dsimp only
  rw [hqNormal.inj hnonce, hnonceX, hrx, hnonceEven]
  simp

/-! ### The whole -/

/-- **secp256k1 is computed as the curve is defined**: the points of the program are those of the
curve; adding, doubling and multiplying them does what the group does; what is signed is verified;
and a key agreement gives both sides the same. -/
theorem arithmetic_is_the_curves (sha256 : Bytes → Bytes) :
    (∀ a, OnCurve a ↔ ∃ P, Represents a P) ∧
    (∀ a b P Q, Represents a P → Represents b Q → Represents (add a b) (P + Q)) ∧
    (∀ a P, Represents a P → Represents (double a) (P + P)) ∧
    (∀ a P k, Represents a P → Represents (mul a k) (k • P)) ∧
    (∀ secretKey, (secretScalar secretKey).isSome → ∃ key, publicKey secretKey = some key ∧
      ∀ message aux signature, sign sha256 message secretKey aux = some signature →
        verify sha256 message key signature = true) ∧
    (∀ a b, (secretScalar a).isSome → (secretScalar b).isSome →
      ∃ keyA keyB shared, publicKey a = some keyA ∧ publicKey b = some keyB ∧
        sharedX a keyB = some shared ∧ sharedX b keyA = some shared) := by
  refine ⟨fun a => onCurve_iff, fun a b P Q => represents_add, fun a P => represents_double,
    fun a P k h => represents_mul h k, ?_, ?_⟩
  · intro secretKey hsecret
    obtain ⟨d, hd⟩ := isSome_iff_exists.mp hsecret
    obtain ⟨q, -, -, hkey⟩ := publicKey_eq hd
    refine ⟨_, hkey, fun message aux signature hsign => ?_⟩
    obtain ⟨key, hkey', hverify⟩ := verify_sign hsign
    rw [some.inj (hkey.symm.trans hkey')]
    exact hverify
  · intro a b ha hb
    obtain ⟨k, hk⟩ := isSome_iff_exists.mp ha
    obtain ⟨m, hm⟩ := isSome_iff_exists.mp hb
    exact sharedX_comm hk hm

end Secp256k1
end Nostr
end Conest
