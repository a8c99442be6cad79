import DigStore.Names
import DigStore.Progress

namespace DigStore

structure CapsuleBytes32 where
  raw : List UInt8
  length_eq : raw.length = 32

structure CapsuleHead where
  storeId : CapsuleBytes32
  rootHash : CapsuleBytes32

/-- The reader of `dig-capsule`: what it finds in the bytes of a module. A read
error is known here by its text only. -/
structure CapsuleReader where
  fromModuleBytes : List UInt8 → Except String CapsuleHead

structure CapsuleIdentity where
  storeId : Bytes32
  rootHash : Bytes32
  deriving DecidableEq

def CapsuleIdentity.capsuleUrn (P : UrnProtocol) (identity : CapsuleIdentity) : String :=
  Urn.capsuleUrn P identity.storeId identity.rootHash

namespace Capsule

open Library Store Getters Agreement AppendOnly Names Snapshot Progress

variable (R : CapsuleReader)

def getCapsuleIdentity (moduleBytes : List UInt8) : DigStoreResult CapsuleIdentity :=
  match R.fromModuleBytes moduleBytes with
  | .error error => .error (.capsule error)
  | .ok capsule => .ok
    { storeId := ⟨capsule.storeId.raw, capsule.storeId.length_eq⟩
      rootHash := ⟨capsule.rootHash.raw, capsule.rootHash.length_eq⟩ }

def openCapsule (moduleBytes : List UInt8) (expectedStoreId : Bytes32) : DigStoreResult CapsuleIdentity := do
  let identity ← getCapsuleIdentity R moduleBytes
  if identity.storeId ≠ expectedStoreId then
    throw (.capsule (s!"capsule store_id mismatch: module declares {identity.storeId} but the trusted anchor is " ++
      s!"{expectedStoreId}"))
  else return identity

variable {R} {moduleBytes : List UInt8} {anchor : Bytes32} {identity : CapsuleIdentity}

theorem getCapsuleIdentity_error {error : DigStoreError} (h : getCapsuleIdentity R moduleBytes = .error error) :
    ∃ detail, error = .capsule detail := by
  unfold getCapsuleIdentity at h
  split at h
  · cases h
    exact ⟨_, rfl⟩
  · cases h

def mismatch (declared anchor : Bytes32) : String :=
  "capsule store_id mismatch: module declares " ++ toHex declared ++ " but the trusted anchor is " ++ toHex anchor

/-- Hex texts have one length, so two such messages split at the same places. -/
theorem framed_injective (front middle : String) {a b a' b' : Bytes32}
    (h : front ++ toHex a ++ middle ++ toHex b = front ++ toHex a' ++ middle ++ toHex b') : a = a' ∧ b = b' := by
  have hlist := congrArg String.toList h
  simp only [String.toList_append, List.append_assoc] at hlist
  have hlen : (toHex a).toList.length = (toHex a').toList.length := by
    rw [String.length_toList, String.length_toList, length_toHex, length_toHex]
  obtain ⟨ha, hrest⟩ := List.append_inj (List.append_cancel_left hlist) hlen
  have hb := List.append_cancel_left hrest
  exact ⟨toHex_injective (String.toList_inj.mp ha), toHex_injective (String.toList_inj.mp hb)⟩

theorem mismatch_injective {a b a' b' : Bytes32} (h : mismatch a b = mismatch a' b') : a = a' ∧ b = b' :=
  framed_injective _ _ h

theorem openCapsule_cases (R : CapsuleReader) (moduleBytes : List UInt8) (anchor : Bytes32) :
    (∃ detail, getCapsuleIdentity R moduleBytes = .error (.capsule detail) ∧
      openCapsule R moduleBytes anchor = .error (.capsule detail)) ∨
    ∃ identity, getCapsuleIdentity R moduleBytes = .ok identity ∧
      ((identity.storeId = anchor ∧ openCapsule R moduleBytes anchor = .ok identity) ∨
        identity.storeId ≠ anchor ∧
          openCapsule R moduleBytes anchor = .error (.capsule (mismatch identity.storeId anchor))) := by
  unfold openCapsule
  cases hget : getCapsuleIdentity R moduleBytes with
  | error error =>
      obtain ⟨detail, rfl⟩ := getCapsuleIdentity_error hget
      exact .inl ⟨detail, rfl, rfl⟩
  | ok identity =>
      refine .inr ⟨identity, rfl, ?_⟩
      by_cases hid : identity.storeId = anchor
      · refine .inl ⟨hid, ?_⟩
        change (if identity.storeId ≠ anchor then _ else Except.ok identity) = _
        rw [if_neg (not_not.mpr hid)]
      · refine .inr ⟨hid, ?_⟩
        unfold mismatch
        change (if identity.storeId ≠ anchor then _ else Except.ok identity) = _
        rw [if_pos hid, toHex_eq, toHex_eq]
        rfl

theorem openCapsule_ok : openCapsule R moduleBytes anchor = .ok identity ↔
    getCapsuleIdentity R moduleBytes = .ok identity ∧ identity.storeId = anchor := by
  rcases openCapsule_cases R moduleBytes anchor with ⟨detail, hget, ho⟩ | ⟨found, hget, ⟨hid, ho⟩ | ⟨hid, ho⟩⟩
  · simp [hget, ho]
  · rw [hget, ho]
    constructor
    · rintro ⟨⟩
      exact ⟨rfl, hid⟩
    · rintro ⟨⟨⟩, -⟩
      rfl
  · rw [hget, ho]
    constructor
    · rintro ⟨⟩
    · rintro ⟨⟨⟩, h⟩
      exact absurd h hid

theorem openCapsule_error {error : DigStoreError} (h : openCapsule R moduleBytes anchor = .error error) :
    ∃ detail, error = .capsule detail := by
  rcases openCapsule_cases R moduleBytes anchor with ⟨detail, -, ho⟩ | ⟨_, -, ⟨-, ho⟩ | ⟨-, ho⟩⟩
  · cases h.symm.trans ho
    exact ⟨detail, rfl⟩
  · cases h.symm.trans ho
  · cases h.symm.trans ho
    exact ⟨_, rfl⟩

theorem openCapsule_refused (hget : getCapsuleIdentity R moduleBytes = .ok identity)
    (hid : identity.storeId ≠ anchor) :
    openCapsule R moduleBytes anchor = .error (.capsule (mismatch identity.storeId anchor)) := by
  rcases openCapsule_cases R moduleBytes anchor with ⟨_, hget', -⟩ | ⟨_, hget', ⟨he, -⟩ | ⟨-, ho⟩⟩
  · cases hget.symm.trans hget'
  · cases hget.symm.trans hget'
    exact absurd he hid
  · cases hget.symm.trans hget'
    exact ho

theorem openCapsule_own (hget : getCapsuleIdentity R moduleBytes = .ok identity) :
    openCapsule R moduleBytes identity.storeId = .ok identity :=
  openCapsule_ok.mpr ⟨hget, rfl⟩

/-- Only a module that cannot be read fails alike for every anchor: any other opens
for its own store id. -/
theorem openCapsule_unread {error : DigStoreError} : getCapsuleIdentity R moduleBytes = .error error ↔
    ∀ anchor, openCapsule R moduleBytes anchor = .error error := by
  constructor
  · intro h anchor
    rcases openCapsule_cases R moduleBytes anchor with ⟨detail, hget, ho⟩ | ⟨_, hget, -⟩
    · rw [ho, ← hget, h]
    · cases h.symm.trans hget
  · intro h
    rcases openCapsule_cases R moduleBytes (Bytes32.fill 0) with ⟨detail, hget, ho⟩ | ⟨identity, hget, -⟩
    · rw [hget, ← ho, h]
    · cases (openCapsule_own hget).symm.trans (h identity.storeId)

structure Anchored (R : CapsuleReader) (moduleBytes : List UInt8) : Prop where
  opened_iff : ∀ identity, getCapsuleIdentity R moduleBytes = .ok identity ↔
    ∃! anchor, openCapsule R moduleBytes anchor = .ok identity
  one_anchor : ∀ anchor anchor' identity identity', openCapsule R moduleBytes anchor = .ok identity →
    openCapsule R moduleBytes anchor' = .ok identity' →
    anchor = identity.storeId ∧ anchor = anchor' ∧ identity = identity'
  failed_iff : ∀ error, getCapsuleIdentity R moduleBytes = .error error ↔
    ∀ anchor, openCapsule R moduleBytes anchor = .error error
  capsule_error : ∀ anchor error, openCapsule R moduleBytes anchor = .error error → ∃ detail, error = .capsule detail
  told : ∀ moduleBytes' identity identity' anchor anchor', getCapsuleIdentity R moduleBytes = .ok identity →
    getCapsuleIdentity R moduleBytes' = .ok identity' → identity.storeId ≠ anchor → identity'.storeId ≠ anchor' →
    (openCapsule R moduleBytes anchor = openCapsule R moduleBytes' anchor' ↔
      identity.storeId = identity'.storeId ∧ anchor = anchor')
  alike_iff : ∀ moduleBytes', (∀ anchor, openCapsule R moduleBytes anchor = openCapsule R moduleBytes' anchor) ↔
    getCapsuleIdentity R moduleBytes = getCapsuleIdentity R moduleBytes'

/-- A module opens against the one anchor it declares, and a refusal names both ids. -/
theorem capsule_anchored (R : CapsuleReader) (moduleBytes : List UInt8) : Anchored R moduleBytes where
  opened_iff identity := by
    constructor
    · intro hget
      exact ⟨identity.storeId, openCapsule_own hget, fun anchor h => (openCapsule_ok.mp h).2.symm⟩
    · rintro ⟨anchor, h, -⟩
      exact (openCapsule_ok.mp h).1
  one_anchor anchor anchor' identity identity' h h' := by
    obtain ⟨hget, rfl⟩ := openCapsule_ok.mp h
    obtain ⟨hget', rfl⟩ := openCapsule_ok.mp h'
    cases hget.symm.trans hget'
    exact ⟨rfl, rfl, rfl⟩
  failed_iff _ := openCapsule_unread
  capsule_error _ _ := openCapsule_error
  told moduleBytes' identity identity' anchor anchor' hget hget' hid hid' := by
    rw [openCapsule_refused hget hid, openCapsule_refused hget' hid']
    constructor
    · intro h
      exact mismatch_injective (DigStoreError.capsule.inj (Except.error.inj h))
    · rintro ⟨h, rfl⟩
      rw [h]
  alike_iff moduleBytes' := by
    constructor
    · intro h
      cases hget : getCapsuleIdentity R moduleBytes with
      | error error =>
          have hfails := openCapsule_unread.mp hget
          exact (openCapsule_unread.mpr fun anchor => (h anchor).symm.trans (hfails anchor)).symm
      | ok identity =>
          have hopens := (h identity.storeId).symm.trans (openCapsule_own hget)
          exact (openCapsule_ok.mp hopens).1.symm
    · intro h anchor
      unfold openCapsule
      rw [h]

section Chain

variable {U : Upstream} {P : UrnProtocol} {sha256 : String → UrnBytes32} {T E : Type} [Preorder T] [ToString E]

theorem latestRootUrn_call {S : ChainSource E} {storeId : Bytes32} {urn : String} :
    S.call (getLatestRootUrn U P storeId) = .ok urn ↔
      ∃ root, S.call (getLatestRoot U storeId) = .ok root ∧ Urn.capsuleUrn P storeId root = urn := by
  have hurn : ReadsOff U storeId (getLatestRootUrn U P storeId : Getter E String)
      (LineageGetter.latestRootUrn.view P storeId) := LineageGetter.latestRootUrn.readsOff
  rw [hurn.call, latestRoot_readsOff.call]
  cases S.call (walkOutcome U storeId) with
  | error error => simp [Except.bind]
  | ok w =>
      cases htip : tipView storeId w with
      | error error => simp [LineageGetter.view, htip, Except.bind]
      | ok tip => simp [LineageGetter.view, htip, Except.bind]

structure Pinned (U : Upstream) (P : UrnProtocol) (sha256 : String → UrnBytes32) (chain : Evolution T E)
    (storeId : Bytes32) (identity : CapsuleIdentity) : Prop where
  named_iff : ∀ other, identity.capsuleUrn P = getStoreUrn P other ++ ":" ++ toHex identity.rootHash ↔ other = storeId
  current_iff : ∀ a, (chain.at a).call (getLatestRootUrn U P storeId) = .ok (identity.capsuleUrn P) ↔
    (chain.at a).call (getLatestRoot U storeId) = .ok identity.rootHash
  recorded : ∀ a b, a ≤ b → (chain.at a).call (getLatestRootUrn U P storeId) = .ok (identity.capsuleUrn P) →
    ∀ history, (chain.at b).call (getRootHistory U storeId) = .ok history → identity.rootHash ∈ history.roots
  own_store : ∀ a other, (chain.at a).call (getLatestRootUrn U P other) = .ok (identity.capsuleUrn P) →
    other = storeId
  key_apart : ∀ other : CapsuleIdentity, ¬Collision sha256 (identity.capsuleUrn P) (other.capsuleUrn P) →
    (Urn.retrievalKey P (identity.capsuleUrn P) = Urn.retrievalKey P (other.capsuleUrn P) ↔ identity = other)

/-- A capsule that opens against a store is named as the chain names its generations:
its name is the latest one just while its root is, and was never another store's. -/
theorem opened_capsule_pinned (hP : P.Canonical) (hK : P.Keyed sha256) (U : Upstream) (chain : Evolution T E)
    (ho : openCapsule R moduleBytes anchor = .ok identity) : Pinned U P sha256 chain anchor identity := by
  obtain ⟨-, rfl⟩ := openCapsule_ok.mp ho
  have hcurrent (a) : (chain.at a).call (getLatestRootUrn U P identity.storeId) = .ok (identity.capsuleUrn P) ↔
      (chain.at a).call (getLatestRoot U identity.storeId) = .ok identity.rootHash := by
    rw [latestRootUrn_call]
    constructor
    · rintro ⟨root, hroot, hurn⟩
      obtain ⟨-, rfl⟩ := capsuleUrn_injective hP hurn
      exact hroot
    · intro hroot
      exact ⟨identity.rootHash, hroot, rfl⟩
  refine ⟨?_, hcurrent, ?_, ?_, ?_⟩
  · intro other
    rw [getStoreUrn, ← capsuleUrn_storeUrn hP]
    constructor
    · intro hurn
      exact (capsuleUrn_injective hP hurn).1.symm
    · rintro rfl
      rfl
  · intro a b hab hurn history hh
    obtain ⟨w, hw, hlast⟩ := latestRoot_call ((hcurrent a).mp hurn)
    obtain ⟨w', hw', hr'⟩ := history_call hh
    rw [hr']
    exact (roots_continue chain hab hw hw').subset (List.mem_of_getLast? hlast)
  · intro a other hurn
    obtain ⟨root, -, hname⟩ := latestRootUrn_call.mp hurn
    exact (capsuleUrn_injective hP hname).1
  · intro other hc
    have hkey := retrievalKey_eq_iff hP hK (x := .capsule identity.storeId identity.rootHash)
      (y := .capsule other.storeId other.rootHash) hc
    refine hkey.trans ?_
    cases identity
    cases other
    simp

end Chain

theorem length_first {bytes : List UInt8} (h : bytes.length = 64) : (bytes.take 32).length = 32 := by
  rw [List.length_take]
  omega

theorem length_second {bytes : List UInt8} (h : bytes.length = 64) : (bytes.drop 32).length = 32 := by
  rw [List.length_drop]
  omega

/-- A stand-in for the reader: a module is a store id and a root, and no more. -/
def pairReader : CapsuleReader where
  fromModuleBytes bytes :=
    if h : bytes.length = 64 then .ok ⟨⟨bytes.take 32, length_first h⟩, ⟨bytes.drop 32, length_second h⟩⟩
    else .error "not a module"

def pairBytes : List UInt8 := (Bytes32.fill 1).bytes ++ (Bytes32.fill 0x22).bytes

theorem pair_opens : openCapsule pairReader pairBytes Simulator.storeId =
    .ok ⟨Simulator.storeId, Bytes32.fill 0x22⟩ := by decide +kernel

theorem opened_capsule_pinned_pair :
    Pinned Simulator.upstream Names.protocol hashed simulated Simulator.storeId
      ⟨Simulator.storeId, Bytes32.fill 0x22⟩ :=
  opened_capsule_pinned Names.protocol_canonical protocol_keyed Simulator.upstream simulated pair_opens

end Capsule

end DigStore
