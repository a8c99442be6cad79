import DigStore.Capsule
import DigStore.FailClosed
import DigStore.Library.Text
import DigStore.Lifecycle
import DigStore.Size

namespace DigStore

open Library Library.Dialogue

def DigStoreError.display : DigStoreError → String
  | .invalidSize message => s!"invalid store size: {message}"
  | .sizeProofMismatch anchoredK actualK actualBytes =>
    s!"size-proof mismatch: .dig is {actualBytes} bytes (bucket {actualK}) but the store anchored bucket " ++
      s!"{anchoredK}; discarding"
  | .invalidUrn detail => s!"invalid URN or identifier: {detail}"
  | .proof detail => s!"on-chain proof failed: {detail}"
  | .capsule detail => s!"capsule error: {detail}"
  | .spend detail => s!"spend-build error: {detail}"

namespace Taxonomy

def framed (a b c d : String) (n k j : ℕ) : String :=
  a ++ (Nat.repr n ++ (b ++ (Nat.repr k ++ (c ++ (Nat.repr j ++ d)))))

theorem framed_eq (a b c d : String) (n k j : ℕ) :
    (a ++ Nat.repr n ++ b ++ Nat.repr k ++ c) ++ ("" ++ Nat.repr j ++ d) = framed a b c d n k j := by
  simp only [framed, String.append_assoc, String.empty_append]

theorem framed_injective {a b c d : String} (hb : Text.Marked b) (hc : Text.Marked c) (hd : Text.Marked d)
    {n k j n' k' j' : ℕ} (h : framed a b c d n k j = framed a b c d n' k' j') : n = n' ∧ k = k' ∧ j = j' := by
  have hn := (String.append_right_inj a).mp h
  obtain ⟨rfl, hmiddle⟩ := Text.repr_append_inj (hb.append _) (hb.append _) hn
  have hk := (String.append_right_inj b).mp hmiddle
  obtain ⟨rfl, hlast⟩ := Text.repr_append_inj (hc.append _) (hc.append _) hk
  have hj := (String.append_right_inj c).mp hlast
  obtain ⟨rfl, -⟩ := Text.repr_append_inj hd hd hj
  exact ⟨rfl, rfl, rfl⟩

theorem display_mismatch (anchoredK actualK : UInt8) (actualBytes : UInt64) :
    (DigStoreError.sizeProofMismatch anchoredK actualK actualBytes).display =
      framed "size-proof mismatch: .dig is " " bytes (bucket " ") but the store anchored bucket " "; discarding"
        actualBytes.toNat actualK.toNat anchoredK.toNat :=
  framed_eq _ _ _ _ _ _ _

/-- What a consumer matches on. -/
inductive Kind
  | invalidSize
  | sizeProofMismatch
  | invalidUrn
  | proof
  | capsule
  | spend
  deriving DecidableEq

def kind : DigStoreError → Kind
  | .invalidSize _ => .invalidSize
  | .sizeProofMismatch _ _ _ => .sizeProofMismatch
  | .invalidUrn _ => .invalidUrn
  | .proof _ => .proof
  | .capsule _ => .capsule
  | .spend _ => .spend

/-- How the errors of a kind begin, as far as it takes to tell the kinds apart. -/
def opening : Kind → String
  | .invalidSize => "invalid s"
  | .sizeProofMismatch => "size-proo"
  | .invalidUrn => "invalid U"
  | .proof => "on-chain "
  | .capsule => "capsule e"
  | .spend => "spend-bui"

theorem opening_injective : ∀ k k', opening k = opening k' → k = k' := by
  intro k k' h
  cases k <;> cases k' <;> first | rfl | exact absurd h (by decide)

theorem length_opening (k : Kind) : (opening k).toList.length = 9 := by cases k <;> rfl

theorem take_opening (k : Kind) {front : String} (hk : front.toList.take 9 = (opening k).toList)
    (rest : String) : (front ++ rest).toList.take 9 = (opening k).toList := by
  have hlen : 9 ≤ front.toList.length := by
    rw [← length_opening k, ← hk]
    exact List.length_take_le' 9 _
  exact (Text.take_front front rest hlen).trans hk

theorem display_opening (error : DigStoreError) :
    error.display.toList.take 9 = (opening (kind error)).toList := by
  cases error with
  | invalidSize message => exact take_opening .invalidSize rfl message
  | sizeProofMismatch anchoredK actualK actualBytes =>
      rw [display_mismatch]
      exact take_opening .sizeProofMismatch rfl _
  | invalidUrn detail => exact take_opening .invalidUrn rfl detail
  | proof detail => exact take_opening .proof rfl detail
  | capsule detail => exact take_opening .capsule rfl detail
  | spend detail => exact take_opening .spend rfl detail

theorem display_kind {error error' : DigStoreError} (h : error.display = error'.display) :
    kind error = kind error' := by
  apply opening_injective
  rw [← String.toList_inj, ← display_opening, ← display_opening, h]

theorem display_injective {error error' : DigStoreError} (h : error.display = error'.display) :
    error = error' := by
  have hk := display_kind h
  cases error with
  | invalidSize message =>
      cases error' <;> cases hk
      exact congrArg _ ((String.append_right_inj "invalid store size: ").mp h)
  | sizeProofMismatch anchoredK actualK actualBytes =>
      cases error' <;> cases hk
      rw [display_mismatch, display_mismatch] at h
      obtain ⟨hn, hk, hj⟩ := framed_injective ⟨' ', _, rfl, by decide⟩ ⟨')', _, rfl, by decide⟩
        ⟨';', _, rfl, by decide⟩ h
      rw [UInt64.toNat_inj.mp hn, UInt8.toNat_inj.mp hk, UInt8.toNat_inj.mp hj]
  | invalidUrn detail =>
      cases error' <;> cases hk
      exact congrArg _ ((String.append_right_inj "invalid URN or identifier: ").mp h)
  | proof detail =>
      cases error' <;> cases hk
      exact congrArg _ ((String.append_right_inj "on-chain proof failed: ").mp h)
  | capsule detail =>
      cases error' <;> cases hk
      exact congrArg _ ((String.append_right_inj "capsule error: ").mp h)
  | spend detail =>
      cases error' <;> cases hk
      exact congrArg _ ((String.append_right_inj "spend-build error: ").mp h)

/-- What a caller can ask of the crate, by what the answer rests on. -/
inductive Surface
  | chain
  | lifecycle
  | names
  | sizes
  | capsules
  deriving DecidableEq

def Surface.owner : Kind → Surface
  | .invalidSize => .lifecycle
  | .sizeProofMismatch => .sizes
  | .invalidUrn => .names
  | .proof => .chain
  | .capsule => .capsules
  | .spend => .lifecycle

section

variable (U : Upstream) (B : SpendBuilders) (P : UrnProtocol) (R : CapsuleReader)
  (forByteLen : UInt64 → Except MerkleError SizeBucket) (E : Type) [ToString E]
  (resolveOwnerDid : Bytes32 → Fallible (Answer E) MerkleError (Option DidRef))

open Store Getters Dialogue Lifecycle Size Capsule

/-- The error is one that some call of the surface returns, whatever it is given
and whatever it reads. -/
inductive Raises : Surface → DigStoreError → Prop
  | getter {α σ : Type} (g : LineageGetter α) (srv : Server (Answer E) σ) (s : σ) (storeId : Bytes32) (error) :
      (run srv s (g.call U P storeId).run).result = .error error → Raises .chain error
  | didOwner {σ : Type} (srv : Server (Answer E) σ) (s : σ) (storeId : Bytes32) (error) :
      (run srv s (getStoreDidOwner U resolveOwnerDid storeId).run).result = .error error → Raises .chain error
  | status {σ : Type} (srv : Server (Answer E) σ) (s : σ) (storeId : Bytes32) (target : UInt32) (error) :
      (run srv s (getStoreStatus U storeId target).run).result = .error error → Raises .chain error
  | created (parentCoin owner ownerPuzzleHash params error) :
      createStore U B parentCoin owner ownerPuzzleHash params = .error error → Raises .lifecycle error
  | modified (store owner newRoot error) :
      modifyStore U B store owner newRoot = .error error → Raises .lifecycle error
  | melted (store owner error) : meltStore U B store owner = .error error → Raises .lifecycle error
  | keyed (urn error) : Urn.retrievalKey P urn = .error error → Raises .names error
  | required (anchored actualBytes error) :
      SizeProof.require forByteLen anchored actualBytes = .error error → Raises .sizes error
  | read (moduleBytes error) : getCapsuleIdentity R moduleBytes = .error error → Raises .capsules error
  | opened (moduleBytes anchor error) :
      openCapsule R moduleBytes anchor = .error error → Raises .capsules error

end

variable {U : Upstream} {B : SpendBuilders} {P : UrnProtocol} {R : CapsuleReader}
  {forByteLen : UInt64 → Except MerkleError SizeBucket} {E : Type} [ToString E]
  {resolveOwnerDid : Bytes32 → Fallible (Answer E) MerkleError (Option DidRef)}

theorem kind_of_isProof {error : DigStoreError} (h : error.IsProof) : kind error = .proof := by
  cases error <;> first | rfl | exact h.elim

omit [ToString E] in
theorem didOwner_error {σ : Type} {srv : Server (Answer E) σ} {s : σ} {storeId : Bytes32} {error : DigStoreError}
    (h : (run srv s (Store.getStoreDidOwner U resolveOwnerDid storeId).run).result = .error error) :
    ∃ detail, error = .proof detail := by
  rw [Store.getStoreDidOwner, run_adapt] at h
  change ((run srv s (resolveOwnerDid storeId).run).result.mapError _) = _ at h
  cases hr : (run srv s (resolveOwnerDid storeId).run).result with
  | ok did =>
      rw [hr] at h
      cases h
  | error failure =>
      rw [hr] at h
      cases h
      exact ⟨_, rfl⟩

theorem mapError_owner {α : Type} {r : Except MerkleError α} {error : DigStoreError}
    (h : r.mapError (.ofMerkle U.display) = .error error) : Surface.owner (kind error) = .lifecycle := by
  cases r with
  | ok a => cases h
  | error failure =>
      cases h
      cases failure <;> rfl

theorem require_error {anchored : SizeBucket} {actualBytes : UInt64} {error : DigStoreError}
    (h : Size.SizeProof.require forByteLen anchored actualBytes = .error error) :
    ∃ actualK, error = .sizeProofMismatch anchored.exponent actualK actualBytes := by
  unfold Size.SizeProof.require at h
  cases hv : Size.SizeProof.verify forByteLen anchored actualBytes with
  | accept =>
      rw [hv] at h
      cases h
  | discard =>
      rw [hv] at h
      cases h
      exact ⟨_, rfl⟩

theorem retrievalKey_error {urn : String} {error : DigStoreError} (h : Urn.retrievalKey P urn = .error error) :
    ∃ detail, error = .invalidUrn detail := by
  unfold Urn.retrievalKey at h
  cases hp : P.parse urn with
  | error failure =>
      rw [hp] at h
      cases h
      exact ⟨_, rfl⟩
  | ok parsed =>
      rw [hp] at h
      cases h

theorem raises_owner {surface : Surface} {error : DigStoreError}
    (h : Raises U B P R forByteLen E resolveOwnerDid surface error) : Surface.owner (kind error) = surface := by
  cases h with
  | getter g srv s storeId error h =>
      rw [kind_of_isProof ((FailClosed.lineage_failsClosed g srv s).proof_error error h), Surface.owner]
  | didOwner srv s storeId error h =>
      obtain ⟨detail, rfl⟩ := didOwner_error h
      rfl
  | status srv s storeId target error h =>
      rw [kind_of_isProof ((FailClosed.status_failsClosed srv s target).proof_error error h), Surface.owner]
  | created _ _ _ _ _ h => exact mapError_owner h
  | modified _ _ _ _ h => exact mapError_owner h
  | melted _ _ _ h => exact mapError_owner h
  | keyed urn error h =>
      obtain ⟨detail, rfl⟩ := retrievalKey_error h
      rfl
  | required anchored actualBytes error h =>
      obtain ⟨actualK, rfl⟩ := require_error h
      rfl
  | read moduleBytes error h =>
      obtain ⟨detail, rfl⟩ := Capsule.getCapsuleIdentity_error h
      rfl
  | opened moduleBytes anchor error h =>
      obtain ⟨detail, rfl⟩ := Capsule.openCapsule_error h
      rfl

structure Sorted (U : Upstream) (B : SpendBuilders) (P : UrnProtocol) (R : CapsuleReader)
    (forByteLen : UInt64 → Except MerkleError SizeBucket) (E : Type) [ToString E]
    (resolveOwnerDid : Bytes32 → Fallible (Answer E) MerkleError (Option DidRef)) : Prop where
  owned : ∀ surface error, Raises U B P R forByteLen E resolveOwnerDid surface error →
    Surface.owner (kind error) = surface
  told : ∀ surface surface' error error', Raises U B P R forByteLen E resolveOwnerDid surface error →
    Raises U B P R forByteLen E resolveOwnerDid surface' error' → error.display = error'.display →
    surface = surface' ∧ error = error'
  measured : ∀ anchored anchored' actualBytes actualBytes' error error',
    Size.SizeProof.require forByteLen anchored actualBytes = .error error →
    Size.SizeProof.require forByteLen anchored' actualBytes' = .error error' →
    (error.display = error'.display ↔ anchored = anchored' ∧ actualBytes = actualBytes')

/-- Every part of the crate has kinds of error of its own, and from the text of one
the part that failed and the error itself can be read back. -/
theorem errors_sorted (U : Upstream) (B : SpendBuilders) (P : UrnProtocol) (R : CapsuleReader)
    (forByteLen : UInt64 → Except MerkleError SizeBucket) (E : Type) [ToString E]
    (resolveOwnerDid : Bytes32 → Fallible (Answer E) MerkleError (Option DidRef)) :
    Sorted U B P R forByteLen E resolveOwnerDid where
  owned _ _ := raises_owner
  told surface surface' error error' h h' htext := by
    obtain rfl := display_injective htext
    exact ⟨(raises_owner h).symm.trans (raises_owner h'), rfl⟩
  measured anchored anchored' actualBytes actualBytes' error error' h h' := by
    constructor
    · intro htext
      obtain ⟨actualK, rfl⟩ := require_error h
      obtain ⟨actualK', rfl⟩ := require_error h'
      obtain ⟨hexp, -, rfl⟩ := DigStoreError.sizeProofMismatch.inj (display_injective htext)
      exact ⟨Size.bucket_ext (congrArg UInt8.toNat hexp), rfl⟩
    · rintro ⟨rfl, rfl⟩
      rw [Except.error.inj (h.symm.trans h')]

end Taxonomy

end DigStore
