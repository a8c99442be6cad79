import DigStore.SizeGate

namespace DigStore.SizePartition

open Size SizeGate

variable {forByteLen : UInt64 → Except MerkleError SizeBucket} {b : SizeBucket} {n : UInt64}

/-- The exponent that a refusal reports is never the anchored one, and it lies on
the side of it on which the length does. -/
structure Mismatch (b : SizeBucket) (n : UInt64) (k : UInt8) : Prop where
  differs : k ≠ b.exponent
  le_eleven : k ≤ 11
  ceiling : k = 11 ↔ 2 ^ 30 < n.toNat
  above : b.exponent < k ↔ 2 ^ (b.exponent.toNat + 20) < n.toNat

theorem mismatch_bucket (h : Ladder forByteLen) {actual : SizeBucket} (hn : forByteLen n = .ok actual)
    (hne : actual ≠ b) : Mismatch b n actual.exponent := by
  have hk := exponent_le actual
  have hle := h.le_ceiling hn
  refine ⟨?_, ?_, ?_, ?_⟩
  · intro he
    exact hne (bucket_ext (congrArg UInt8.toNat he))
  · rw [UInt8.le_iff_toNat_le]
    exact Nat.le_succ_of_le hk
  · apply iff_of_false
    · intro he
      rw [he] at hk
      exact absurd hk (by decide)
    · omega
  · rw [UInt8.lt_iff_toNat_lt, h.exponent_lt_iff hn]

theorem mismatch_ceiling (hn : 2 ^ 30 < n.toNat) : Mismatch b n (maxExponent + 1) := by
  have hb := exponent_le b
  refine ⟨?_, ?_, ?_, ?_⟩
  · intro he
    rw [← he] at hb
    exact absurd hb (by decide)
  · decide
  · exact iff_of_true rfl hn
  · apply iff_of_true
    · rw [UInt8.lt_iff_toNat_lt]
      exact Nat.lt_succ_of_le hb
    · have hp : 2 ^ (b.exponent.toNat + 20) ≤ 2 ^ 30 := Nat.pow_le_pow_right (by decide) (by omega)
      omega

structure Partitions (forByteLen : UInt64 → Except MerkleError SizeBucket) : Prop where
  one : ∀ n : UInt64, n.toNat ≤ 2 ^ 30 → ∃! b, SizeProof.verify forByteLen b n = .accept
  none : ∀ n : UInt64, 2 ^ 30 < n.toNat → ∀ b, SizeProof.verify forByteLen b n = .discard
  first : ∀ b n, b.exponent = 0 → (SizeProof.verify forByteLen b n = .accept ↔ n.toNat ≤ 2 ^ 20)
  later : ∀ b n, b.exponent ≠ 0 → (SizeProof.verify forByteLen b n = .accept ↔
    2 ^ (b.exponent.toNat + 19) < n.toNat ∧ n.toNat ≤ 2 ^ (b.exponent.toNat + 20))
  require_ok : ∀ b n, SizeProof.require forByteLen b n = .ok () ↔ SizeProof.verify forByteLen b n = .accept
  require_mismatch : ∀ b n, SizeProof.verify forByteLen b n ≠ .accept →
    ∃ k, SizeProof.require forByteLen b n = .error (.sizeProofMismatch b.exponent k n) ∧ Mismatch b n k

theorem accepts_one (h : Ladder forByteLen) (hn : n.toNat ≤ 2 ^ 30) :
    ∃! b, SizeProof.verify forByteLen b n = .accept := by
  obtain ⟨b, hb⟩ := h.total n hn
  refine ⟨b, verify_accept.mpr hb, ?_⟩
  intro b' hb'
  have he := (verify_accept.mp hb').symm.trans hb
  exact Except.ok.inj he

theorem accepts_none (h : Ladder forByteLen) (hn : 2 ^ 30 < n.toNat) (b : SizeBucket) :
    SizeProof.verify forByteLen b n = .discard := by
  obtain ⟨error, he⟩ := h.ceiling n hn
  simp [SizeProof.verify, he]

theorem require_mismatch (h : Ladder forByteLen) (hv : SizeProof.verify forByteLen b n ≠ .accept) :
    ∃ k, SizeProof.require forByteLen b n = .error (.sizeProofMismatch b.exponent k n) ∧ Mismatch b n k := by
  have hd : SizeProof.verify forByteLen b n = .discard := by
    cases hv' : SizeProof.verify forByteLen b n with
    | accept => exact absurd hv' hv
    | discard => rfl
  rcases require_discard hd with ⟨actual, hn, hne, hr⟩ | ⟨he, hr⟩
  · exact ⟨actual.exponent, hr, mismatch_bucket h hn hne⟩
  · exact ⟨maxExponent + 1, hr, mismatch_ceiling (h.error_iff.mp he)⟩

/-- On the ladder, every length up to the ceiling has the one bucket that its size
proof accepts, and the refusals tell which way a length went wrong. -/
theorem size_partition (h : Ladder forByteLen) : Partitions forByteLen where
  one _ := accepts_one h
  none _ := accepts_none h
  first b n hk := by
    rw [verify_accept, h.bucket_iff, hk]
    simp [InBucket]
  later b n hk := by
    have hk' : b.exponent.toNat ≠ 0 := by
      intro h0
      exact hk (UInt8.toNat_inj.mp h0)
    rw [verify_accept, h.bucket_iff]
    simp only [InBucket, hk', false_or]
    exact and_comm
  require_ok _ _ := Size.require_ok
  require_mismatch _ _ := require_mismatch h

theorem size_partition_byteLadder : Partitions byteLadder := size_partition byteLadder_ladder

end DigStore.SizePartition
