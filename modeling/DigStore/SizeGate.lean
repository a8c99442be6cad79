import DigStore.Publishers
import DigStore.Size
import Mathlib.Data.Nat.Log

namespace DigStore.SizeGate

open Store World Publishers Size

variable {U : Upstream} {B : SpendBuilders} {outputs : CoinSpend → List Coin} {P E : Type} [DecidableEq P]
  [ToString E] {node : Node U E} {forByteLen : UInt64 → Except MerkleError SizeBucket}

structure Gated (forByteLen : UInt64 → Except MerkleError SizeBucket) (chain : ChainSource E) (U : Upstream)
    (storeId : Bytes32) (anchored : SizeBucket) (first newest : UInt64) : Prop where
  read : chain.call (getStoreSizeBucket U storeId) = .ok (some anchored)
  accept_iff : SizeProof.verify forByteLen anchored newest = .accept ↔ forByteLen newest = forByteLen first
  in_bucket_iff : SizeProof.verify forByteLen anchored newest = .accept ↔
    InBucket anchored.exponent.toNat newest.toNat
  first_in_bucket : InBucket anchored.exponent.toNat first.toNat

/-- A modify carries the bucket of the first generation forward, so the gate keeps
the newest `.dig` exactly when its length is still in that bucket. -/
theorem gate_keeps_first_bucket (hB : MerkleContract U B outputs) (hF : Ladder forByteLen) {w : State U P}
    (hw : Reachable B outputs node w) {storeId : Bytes32} {log : StoreLog} (hlog : w.logs storeId = some log)
    (hcap : log.roots.length ≤ maxLineageGenerations) (hopen : log.melted = false) (len : ℕ → UInt64)
    {anchored : SizeBucket} (hfirst : forByteLen (len 0) = .ok anchored)
    (hanchor : log.metadata.sizeBucket = some anchored) :
    Gated forByteLen (node.source w.ledger) U storeId anchored (len 0) (len (log.roots.length - 1)) := by
  obtain ⟨gens, hi⟩ := reachable_inv hB hw
  obtain ⟨last, hh⟩ := hi.holds storeId log hlog
  have hread : (node.source w.ledger).call (getStoreSizeBucket U storeId) = .ok log.metadata.sizeBucket :=
    hh.tipMetadata_call hcap hopen (·.sizeBucket)
  refine ⟨hread.trans (congrArg Except.ok hanchor), ?_, ?_, ?_⟩
  · rw [verify_accept, hfirst]
  · rw [verify_accept, hF.bucket_iff]
  · exact hF.bucket_iff.mp hfirst

def byteLadder (n : UInt64) : Except MerkleError SizeBucket :=
  if h : Nat.clog 2 n.toNat ≤ 30 then
    .ok ⟨UInt8.ofNat (Nat.clog 2 n.toNat - 20), by
      rw [UInt8.le_iff_toNat_le, UInt8.toNat_ofNat_of_lt' (by simp [UInt8.size]; omega)]
      simp
      omega⟩
  else .error (.invalidSize s!"{n} bytes are above the ceiling")

theorem byteLadder_ok {n : UInt64} {b : SizeBucket} (h : byteLadder n = .ok b) :
    Nat.clog 2 n.toNat ≤ 30 ∧ b.exponent.toNat = Nat.clog 2 n.toNat - 20 := by
  unfold byteLadder at h
  split at h
  · cases h
    exact ⟨‹_›, UInt8.toNat_ofNat_of_lt' (by simp [UInt8.size]; omega)⟩
  · cases h

theorem byteLadder_ladder : Ladder byteLadder where
  holds n b h := by
    obtain ⟨-, hb⟩ := byteLadder_ok h
    exact (Nat.clog_le_iff_le_pow (by decide)).mp (by omega)
  smallest n b k h hk := by
    obtain ⟨-, hb⟩ := byteLadder_ok h
    have hc := (Nat.clog_le_iff_le_pow (by decide)).mpr hk
    omega
  total n hn := by
    have hc : Nat.clog 2 n.toNat ≤ 30 := (Nat.clog_le_iff_le_pow (by decide)).mpr hn
    exact ⟨_, dif_pos hc⟩
  ceiling n hn := by
    have hc : ¬Nat.clog 2 n.toNat ≤ 30 := fun hc => absurd ((Nat.clog_le_iff_le_pow (by decide)).mp hc) (by omega)
    exact ⟨_, dif_neg hc⟩

def shrinking : ℕ → UInt64
  | 0 => 100000000
  | _ => 1

theorem gate_keeps_first_bucket_raced :
    Gated byteLadder (simulatorNode.source raced.ledger) Simulator.upstream Simulator.storeId params.size
      (shrinking 0) (shrinking 1) := by
  have hlog : raced.logs Simulator.storeId =
      some ⟨params.metadata, Simulator.owner, [Bytes32.fill 0x11, Bytes32.fill 0x22], false⟩ := rfl
  have hfirst : byteLadder (shrinking 0) = .ok params.size := by decide +kernel
  exact gate_keeps_first_bucket simulator_contract byteLadder_ladder raced_reachable hlog (by decide) rfl shrinking
    hfirst rfl

/-- The newest `.dig` of a store that was honestly created and honestly updated is
discarded, its length having left the bucket of the first. -/
theorem gate_discards_newest :
    Reachable Simulator.builders Simulator.outputs simulatorNode raced ∧
      (raced.logs Simulator.storeId).map (·.roots.length) = some 2 ∧ (∀ i, (shrinking i).toNat ≤ 2 ^ 30) ∧
      byteLadder (shrinking 0) = .ok params.size ∧
      (simulatorNode.source raced.ledger).call (getStoreSizeBucket Simulator.upstream Simulator.storeId) =
        .ok (some params.size) ∧
      SizeProof.verify byteLadder params.size (shrinking 1) = .discard := by
  refine ⟨raced_reachable, rfl, ?_, ?_, ?_, ?_⟩
  · intro i
    cases i with
    | zero => decide
    | succ i =>
        change (1 : UInt64).toNat ≤ 2 ^ 30
        decide
  all_goals decide +kernel

end DigStore.SizeGate
