import DigStore.Error
import Mathlib.Algebra.Group.Nat.Defs

namespace DigStore.Size

inductive SizeVerdict
  | accept
  | discard
  deriving DecidableEq

def maxExponent : UInt8 := 10

variable (forByteLen : UInt64 → Except MerkleError SizeBucket)

/-- The decision on a downloaded `.dig`: it is kept if its length is in the
anchored bucket, and a length without a bucket never is. -/
def SizeProof.verify (anchored : SizeBucket) (actualBytes : UInt64) : SizeVerdict :=
  match forByteLen actualBytes with
  | .ok actual => if actual = anchored then .accept else .discard
  | .error _ => .discard

/-- The decision as an error. A length above the ceiling has no bucket and is
reported as one above the last. -/
def SizeProof.require (anchored : SizeBucket) (actualBytes : UInt64) : DigStoreResult Unit :=
  match SizeProof.verify forByteLen anchored actualBytes with
  | .accept => .ok ()
  | .discard =>
    let actualK := match forByteLen actualBytes with
      | .ok bucket => bucket.exponent
      | .error _ => maxExponent + 1
    .error (.sizeProofMismatch anchored.exponent actualK actualBytes)

/-- The ladder that `dig-merkle` owns: the smallest bucket that holds the length,
and none above the ceiling. -/
structure Ladder : Prop where
  holds : ∀ n b, forByteLen n = .ok b → n.toNat ≤ 2 ^ (b.exponent.toNat + 20)
  smallest : ∀ n b k, forByteLen n = .ok b → n.toNat ≤ 2 ^ (k + 20) → b.exponent.toNat ≤ k
  total : ∀ n, n.toNat ≤ 2 ^ 30 → ∃ b, forByteLen n = .ok b
  ceiling : ∀ n, 2 ^ 30 < n.toNat → ∃ error, forByteLen n = .error error

def InBucket (k n : Nat) : Prop := n ≤ 2 ^ (k + 20) ∧ (k = 0 ∨ 2 ^ (k + 19) < n)

variable {forByteLen} {b b' : SizeBucket} {n : UInt64}

theorem verify_accept : SizeProof.verify forByteLen b n = .accept ↔ forByteLen n = .ok b := by
  unfold SizeProof.verify
  split
  · rename_i actual h
    rw [h]
    by_cases ha : actual = b
    · simp [ha]
    · simp [ha]
  · rename_i error h
    simp [h]

theorem require_ok : SizeProof.require forByteLen b n = .ok () ↔ SizeProof.verify forByteLen b n = .accept := by
  unfold SizeProof.require
  cases SizeProof.verify forByteLen b n <;> simp

theorem require_discard (h : SizeProof.verify forByteLen b n = .discard) :
    (∃ actual, forByteLen n = .ok actual ∧ actual ≠ b ∧
      SizeProof.require forByteLen b n = .error (.sizeProofMismatch b.exponent actual.exponent n)) ∨
    (∃ error, forByteLen n = .error error) ∧
      SizeProof.require forByteLen b n = .error (.sizeProofMismatch b.exponent (maxExponent + 1) n) := by
  have hne : forByteLen n ≠ .ok b := by
    intro hb
    rw [← verify_accept, h] at hb
    cases hb
  unfold SizeProof.require
  rw [h]
  cases hn : forByteLen n with
  | ok actual =>
      refine .inl ⟨actual, rfl, ?_, rfl⟩
      rintro rfl
      exact hne hn
  | error error => exact .inr ⟨⟨error, rfl⟩, rfl⟩

theorem bucket_ext (h : b.exponent.toNat = b'.exponent.toNat) : b = b' := by
  cases b
  cases b'
  congr 1
  exact UInt8.toNat_inj.mp h

theorem exponent_le (b : SizeBucket) : b.exponent.toNat ≤ 10 := UInt8.le_iff_toNat_le.mp b.le_max

theorem Ladder.bucket_iff (h : Ladder forByteLen) :
    forByteLen n = .ok b ↔ InBucket b.exponent.toNat n.toNat := by
  constructor
  · intro hb
    refine ⟨h.holds n b hb, ?_⟩
    by_cases hk : b.exponent.toNat = 0
    · exact .inl hk
    · right
      by_contra hle
      have hk' : b.exponent.toNat - 1 + 20 = b.exponent.toNat + 19 := by omega
      have hs := h.smallest n b (b.exponent.toNat - 1) hb (by rw [hk']; omega)
      omega
  · intro ⟨hle, hlt⟩
    have hb := exponent_le b
    have hmax : n.toNat ≤ 2 ^ 30 := Nat.le_trans hle (Nat.pow_le_pow_right (by decide) (by omega))
    obtain ⟨b', hb'⟩ := h.total n hmax
    have hs := h.smallest n b' b.exponent.toNat hb' hle
    rw [hb']
    apply congrArg Except.ok
    apply bucket_ext (Nat.le_antisymm hs _)
    by_contra hlt'
    have hn := h.holds n b' hb'
    have hp : 2 ^ (b'.exponent.toNat + 20) ≤ 2 ^ (b.exponent.toNat + 19) :=
      Nat.pow_le_pow_right (by decide) (by omega)
    omega

theorem Ladder.le_ceiling (h : Ladder forByteLen) (hb : forByteLen n = .ok b) : n.toNat ≤ 2 ^ 30 := by
  have hk := exponent_le b
  exact Nat.le_trans (h.holds n b hb) (Nat.pow_le_pow_right (by decide) (by omega))

theorem Ladder.error_iff (h : Ladder forByteLen) : (∃ error, forByteLen n = .error error) ↔ 2 ^ 30 < n.toNat := by
  constructor
  · intro ⟨error, he⟩
    by_contra hle
    obtain ⟨b, hb⟩ := h.total n (by omega)
    rw [he] at hb
    cases hb
  · exact h.ceiling n

theorem Ladder.exponent_lt_iff (h : Ladder forByteLen) (hb : forByteLen n = .ok b) (k : ℕ) :
    k < b.exponent.toNat ↔ 2 ^ (k + 20) < n.toNat := by
  constructor
  · intro hk
    by_contra hle
    have hs := h.smallest n b k hb (by omega)
    omega
  · intro hn
    by_contra hk
    have hp : 2 ^ (b.exponent.toNat + 20) ≤ 2 ^ (k + 20) := Nat.pow_le_pow_right (by decide) (by omega)
    have hle := h.holds n b hb
    omega

end DigStore.Size
