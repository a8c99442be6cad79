import DigStore.Library.Hex

namespace DigStore

open Library

/-- A 32-byte identifier: a store id, a merkle root, a coin id or a puzzle hash. -/
structure Bytes32 where
  bytes : List UInt8
  length_eq : bytes.length = 32
  deriving DecidableEq

def Bytes32.fill (b : UInt8) : Bytes32 := ⟨List.replicate 32 b, List.length_replicate⟩

instance : ToString Bytes32 := ⟨fun value => Hex.encode value.bytes⟩

abbrev Program := List UInt8

structure Coin where
  parentCoinInfo : Bytes32
  puzzleHash : Bytes32
  amount : UInt64
  deriving DecidableEq

structure CoinSpend where
  coin : Coin
  puzzleReveal : Program
  solution : Program
  deriving DecidableEq

structure CoinRecord where
  coin : Coin
  confirmedHeight : Option UInt32
  spentHeight : Option UInt32
  timestamp : Option UInt64
  coinbase : Bool
  deriving DecidableEq

/-- An exponent of the size ladder. An exponent above ten cannot be built. -/
structure SizeBucket where
  exponent : UInt8
  le_max : exponent ≤ 10
  deriving DecidableEq

structure DigDataStoreMetadata where
  rootHash : Bytes32
  label : Option String
  description : Option String
  sizeProof : Option String
  programHash : Option Bytes32
  sizeBucket : Option SizeBucket
  deriving DecidableEq

structure LineageProof where
  parentParentCoinInfo : Bytes32
  parentInnerPuzzleHash : Bytes32
  parentAmount : UInt64
  deriving DecidableEq

inductive Proof
  | eve (parentParentCoinInfo : Bytes32) (parentAmount : UInt64)
  | lineage (proof : LineageProof)
  deriving DecidableEq

structure DelegatedPuzzle where
  puzzle : Program
  deriving DecidableEq

structure DatastoreInfo where
  launcherId : Bytes32
  metadata : DigDataStoreMetadata
  ownerPuzzleHash : Bytes32
  delegatedPuzzles : List DelegatedPuzzle
  deriving DecidableEq

structure Datastore where
  coin : Coin
  proof : Proof
  info : DatastoreInfo
  deriving DecidableEq

def Datastore.root (d : Datastore) : Bytes32 := d.info.metadata.rootHash

/-- An owning DID, by its launcher. -/
structure DidRef where
  launcherId : Bytes32

structure MerkleCoinSpend where
  coinSpends : List CoinSpend
  child : Option Datastore
  deriving DecidableEq

inductive StoreStatusKind
  | live
  | melted
  | notFound
  deriving DecidableEq

structure Confirmations where
  «have» : UInt32
  target : UInt32
  deriving DecidableEq

structure StoreStatus where
  status : StoreStatusKind
  storeId : String
  confirmations : Option Confirmations
  ownerPuzzleHash : Option String
  liveRoot : Option String
  programHash : Option String
  headSignature : Option String
  coinId : Option String
  verified : Bool
  generationCount : Nat
  deriving DecidableEq

structure RootHistory where
  roots : List Bytes32
  deriving DecidableEq

def RootHistory.latest (history : RootHistory) : Option Bytes32 := history.roots.getLast?

def RootHistory.generationCount (history : RootHistory) : Nat := history.roots.length

end DigStore
