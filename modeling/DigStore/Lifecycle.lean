import DigStore.Chain

namespace DigStore

inductive StoreKind
  | file
  | other (discriminator : String)
  deriving DecidableEq

structure PublicKey where
  bytes : List UInt8
  length_eq : bytes.length = 48
  deriving DecidableEq

/-- The owners that `dig-merkle` names. It refuses a pre-built inner spend. -/
inductive Owner
  | standard (key : PublicKey)
  | custom (puzzle solution : Program)
  deriving DecidableEq

structure SpendBuilders where
  mintDatastoreWithKind : StoreKind → Coin → Owner → (rootHash : Bytes32) → (label description : Option String) →
    (sizeProof : Option String) → (programHash : Option Bytes32) → Option SizeBucket → (ownerPuzzleHash : Bytes32) →
    List DelegatedPuzzle → (fee : UInt64) → Except MerkleError MerkleCoinSpend
  updateRoot : Datastore → Owner → DigDataStoreMetadata → Except MerkleError MerkleCoinSpend
  melt : Datastore → Owner → Except MerkleError MerkleCoinSpend

namespace Lifecycle

inductive StoreOwner
  | standard (key : PublicKey)
  deriving DecidableEq

def StoreOwner.toOwner : StoreOwner → Owner
  | .standard key => .standard key

structure CreateStoreParams where
  rootHash : Bytes32
  size : SizeBucket
  label : Option String
  description : Option String
  programHash : Option Bytes32
  fee : UInt64
  deriving DecidableEq

def CreateStoreParams.metadata (params : CreateStoreParams) : DigDataStoreMetadata where
  rootHash := params.rootHash
  label := params.label
  description := params.description
  sizeProof := none
  programHash := params.programHash
  sizeBucket := some params.size

variable (U : Upstream) (B : SpendBuilders)

def createStore (parentCoin : Coin) (owner : StoreOwner) (ownerPuzzleHash : Bytes32)
    (params : CreateStoreParams) : DigStoreResult MerkleCoinSpend :=
  (B.mintDatastoreWithKind .file parentCoin owner.toOwner params.rootHash params.label params.description none
    params.programHash (some params.size) ownerPuzzleHash [] params.fee).mapError (.ofMerkle U.display)

def modifyStore (store : Datastore) (owner : StoreOwner) (newRoot : Bytes32) : DigStoreResult MerkleCoinSpend :=
  (B.updateRoot store owner.toOwner { store.info.metadata with rootHash := newRoot }).mapError
    (.ofMerkle U.display)

def meltStore (store : Datastore) (owner : StoreOwner) : DigStoreResult MerkleCoinSpend :=
  (B.melt store owner.toOwner).mapError (.ofMerkle U.display)

variable {U B} {built : MerkleCoinSpend}

theorem mapError_ok {ε δ α : Type} {r : Except ε α} {f : ε → δ} {a : α} (h : r.mapError f = .ok a) : r = .ok a := by
  cases r with
  | error e => cases h
  | ok b =>
      cases h
      rfl

theorem createStore_ok {parentCoin : Coin} {owner : StoreOwner} {ownerPuzzleHash : Bytes32}
    {params : CreateStoreParams} (h : createStore U B parentCoin owner ownerPuzzleHash params = .ok built) :
    B.mintDatastoreWithKind .file parentCoin owner.toOwner params.rootHash params.label params.description none
      params.programHash (some params.size) ownerPuzzleHash [] params.fee = .ok built :=
  mapError_ok h

theorem modifyStore_ok {store : Datastore} {owner : StoreOwner} {newRoot : Bytes32}
    (h : modifyStore U B store owner newRoot = .ok built) :
    B.updateRoot store owner.toOwner { store.info.metadata with rootHash := newRoot } = .ok built :=
  mapError_ok h

theorem meltStore_ok {store : Datastore} {owner : StoreOwner} (h : meltStore U B store owner = .ok built) :
    B.melt store owner.toOwner = .ok built :=
  mapError_ok h

end Lifecycle

end DigStore
