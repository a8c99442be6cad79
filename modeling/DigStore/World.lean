import DigStore.Lineages
import DigStore.Ledger
import DigStore.Lifecycle
import Mathlib.Logic.Function.Basic

namespace DigStore.World

open Store Lineages Lifecycle

def Hydrated (U : Upstream) (store : Datastore) : Prop := ∃ s, U.hydrate s = .ok store

structure Minted (U : Upstream) (outputs : CoinSpend → List Coin) (parent : Coin)
    (metadata : DigDataStoreMetadata) (ownerPuzzleHash : Bytes32) (delegatedPuzzles : List DelegatedPuzzle)
    (built : MerkleCoinSpend) (funding launcher : CoinSpend) (child : Datastore) : Prop where
  spends : ∀ s, s ∈ built.coinSpends ↔ s = funding ∨ s = launcher
  parent_eq : funding.coin = parent
  launched : launcher.coin ∈ outputs funding
  child_eq : built.child = some child
  hydrates : U.hydrate launcher = .ok child
  info : child.info = ⟨U.coinId launcher.coin, metadata, ownerPuzzleHash, delegatedPuzzles⟩
  created : child.coin ∈ outputs launcher

/-- What is relied on of `dig-merkle`. The coins that a spend creates are known
through `outputs`. -/
structure MerkleContract (U : Upstream) (B : SpendBuilders) (outputs : CoinSpend → List Coin) : Prop where
  mint : ∀ kind parent owner rootHash label description sizeProof programHash sizeBucket ownerPuzzleHash
      delegatedPuzzles fee built,
    B.mintDatastoreWithKind kind parent owner rootHash label description sizeProof programHash sizeBucket
      ownerPuzzleHash delegatedPuzzles fee = .ok built →
    ∃ funding launcher child, Minted U outputs parent
      ⟨rootHash, label, description, sizeProof, programHash, sizeBucket⟩ ownerPuzzleHash delegatedPuzzles
      built funding launcher child
  updateRoot : ∀ store owner metadata built, Hydrated U store → B.updateRoot store owner metadata = .ok built →
    ∃ s child, built.coinSpends = [s] ∧ s.coin = store.coin ∧ U.hydrate s = .ok child ∧
      child.info = { store.info with metadata := metadata } ∧ child.coin ∈ outputs s
  melt : ∀ store owner built, Hydrated U store → B.melt store owner = .ok built →
    ∃ s, built.coinSpends = [s] ∧ s.coin = store.coin ∧ U.hydrate s = .error .missingLineage

/-- A chain source that answers spends from the ledger. Its records and its peak
may be anything. -/
structure Node (U : Upstream) (E : Type) where
  source : Ledger U → ChainSource E
  spend_eq : ∀ L id, (source L).coinSpend id = .ok (L.spendOf id)

structure StoreLog where
  metadata : DigDataStoreMetadata
  ownerPuzzleHash : Bytes32
  roots : List Bytes32
  melted : Bool
  deriving DecidableEq

def StoreLog.publish (log : StoreLog) (root : Bytes32) : StoreLog := { log with roots := log.roots ++ [root] }

def StoreLog.close (log : StoreLog) : StoreLog := { log with melted := true }

def StoreLog.info (log : StoreLog) (storeId root : Bytes32) : DatastoreInfo where
  launcherId := storeId
  metadata := { log.metadata with rootHash := root }
  ownerPuzzleHash := log.ownerPuzzleHash
  delegatedPuzzles := []

structure State (U : Upstream) (P : Type) where
  ledger : Ledger U
  tips : P → List Datastore
  logs : Bytes32 → Option StoreLog

variable {U : Upstream} {B : SpendBuilders} {outputs : CoinSpend → List Coin} {P E : Type} [DecidableEq P]
  [ToString E] {node : Node U E} {L : Ledger U} {bundle : List CoinSpend}

def StoreCoin (node : Node U E) (w : State U P) (coin : Coin) : Prop :=
  ∃ storeId ds d, (w.logs storeId).isSome ∧ Generations U (node.source w.ledger) storeId ds ∧ d ∈ ds ∧
    U.coinId d.coin = U.coinId coin

/-- One step of the ledger or of a publisher. What a publisher builds on may be
long stale. -/
inductive Step (B : SpendBuilders) (outputs : CoinSpend → List Coin) (node : Node U E) :
    State U P → State U P → Prop
  | create {w : State U P} {parent owner ownerPuzzleHash params built child}
      (hb : createStore U B parent owner ownerPuzzleHash params = .ok built) (hc : built.child = some child)
      (hp : parent ∈ w.ledger.coins) (ho : ¬StoreCoin node w parent)
      (ha : Ledger.Admits outputs w.ledger built.coinSpends) (hf : Ledger.Fresh outputs w.ledger built.coinSpends) :
      Step B outputs node w ⟨w.ledger.accept ha hf, w.tips, Function.update w.logs child.info.launcherId
        (some ⟨params.metadata, ownerPuzzleHash, [params.rootHash], false⟩)⟩
  | read {w : State U P} (p) {storeId tip} (hl : (w.logs storeId).isSome)
      (hr : (node.source w.ledger).call (getStoreSingletonTip U storeId) = .ok tip) :
      Step B outputs node w ⟨w.ledger, Function.update w.tips p (tip :: w.tips p), w.logs⟩
  | modify {w : State U P} (p) {tip owner newRoot built} (ht : tip ∈ w.tips p)
      (hb : modifyStore U B tip owner newRoot = .ok built)
      (ha : Ledger.Admits outputs w.ledger built.coinSpends) (hf : Ledger.Fresh outputs w.ledger built.coinSpends) :
      Step B outputs node w ⟨w.ledger.accept ha hf, w.tips, Function.update w.logs tip.info.launcherId
        ((w.logs tip.info.launcherId).map (·.publish newRoot))⟩
  | melt {w : State U P} (p) {tip owner built} (ht : tip ∈ w.tips p) (hb : meltStore U B tip owner = .ok built)
      (ha : Ledger.Admits outputs w.ledger built.coinSpends) (hf : Ledger.Fresh outputs w.ledger built.coinSpends) :
      Step B outputs node w ⟨w.ledger.accept ha hf, w.tips, Function.update w.logs tip.info.launcherId
        ((w.logs tip.info.launcherId).map (·.close))⟩
  -- Spends of any other coins, by anyone.
  | other {w : State U P} {bundle} (ho : ∀ s ∈ bundle, ¬StoreCoin node w s.coin)
      (ha : Ledger.Admits outputs w.ledger bundle) (hf : Ledger.Fresh outputs w.ledger bundle) :
      Step B outputs node w ⟨w.ledger.accept ha hf, w.tips, w.logs⟩
  | refused {w : State U P} {bundle} (ha : ¬Ledger.Admits outputs w.ledger bundle) : Step B outputs node w w

end DigStore.World
