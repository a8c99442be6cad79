import DigStore.Lifecycle
import DigStore.Urn

namespace DigStore.Simulator

open Library

/-- A small stand-in for the other crates: a coin is named by its amount, and a
spend carries the metadata of the child in its solution. -/
def coinId (coin : Coin) : Bytes32 := Bytes32.fill coin.amount.toUInt8

def metadataOf : Program → Option DigDataStoreMetadata
  | [root, exponent] => some
    { rootHash := Bytes32.fill root
      label := none
      description := none
      sizeProof := none
      programHash := none
      sizeBucket := if h : exponent ≤ 10 then some ⟨exponent, h⟩ else none }
  | _ => none

def launcherOf (spend : CoinSpend) : Bytes32 :=
  match spend.puzzleReveal with
  | [store] => Bytes32.fill store
  | _ => coinId spend.coin

def hydrate (spend : CoinSpend) : Except MerkleError Datastore :=
  match metadataOf spend.solution with
  | none => .error .missingLineage
  | some metadata => .ok
    { coin := ⟨coinId spend.coin, spend.coin.puzzleHash, spend.coin.amount + 1⟩
      proof := .eve spend.coin.parentCoinInfo spend.coin.amount
      info := ⟨launcherOf spend, metadata, spend.coin.puzzleHash, []⟩ }

/-- The coins a spend creates: the launcher, from a spend that funds one for the
owner in its solution, or else the coin of the hydrated child. -/
def outputs (spend : CoinSpend) : List Coin :=
  if h : spend.solution.length = 32 then
    [⟨coinId spend.coin, ⟨spend.solution, h⟩, spend.coin.amount + 1⟩]
  else
    match hydrate spend with
    | .ok child => [child.coin]
    | .error _ => []

def display : MerkleError → String
  | .invalidSize message => s!"invalid size: {message}"
  | .missingLineage => "missing lineage"
  | .notDataStore => "not a data store"
  | .unsupportedOwner detail => s!"unsupported owner: {detail}"
  | .chain detail => s!"chain: {detail}"
  | .other detail => detail

def upstream : Upstream where
  coinId := coinId
  hydrate := hydrate
  isSpent record := record.spentHeight.isSome
  display := display

def encode (metadata : DigDataStoreMetadata) : Program :=
  [metadata.rootHash.bytes.headD 0, (metadata.sizeBucket.map (·.exponent)).getD 255]

def checked (coinSpends : List CoinSpend) (spend : CoinSpend) (info : DatastoreInfo) :
    Except MerkleError MerkleCoinSpend :=
  match hydrate spend with
  | .ok child => if child.info = info then .ok ⟨coinSpends, some child⟩ else .error (.other "not simulated")
  | .error error => .error error

def fund (parent : Coin) (ownerPuzzleHash : Bytes32) : CoinSpend := ⟨parent, [], ownerPuzzleHash.bytes⟩

def launchOf (parent : Coin) (ownerPuzzleHash : Bytes32) (metadata : DigDataStoreMetadata) : CoinSpend :=
  ⟨⟨coinId parent, ownerPuzzleHash, parent.amount + 1⟩, [], encode metadata⟩

def updateOf (store : Datastore) (metadata : DigDataStoreMetadata) : CoinSpend :=
  ⟨store.coin, [store.info.launcherId.bytes.headD 0], encode metadata⟩

def meltOf (store : Datastore) : CoinSpend := ⟨store.coin, [store.info.launcherId.bytes.headD 0], []⟩

def builders : SpendBuilders where
  mintDatastoreWithKind _ parent _ rootHash label description sizeProof programHash sizeBucket ownerPuzzleHash
      delegatedPuzzles _ :=
    let metadata : DigDataStoreMetadata := ⟨rootHash, label, description, sizeProof, programHash, sizeBucket⟩
    let launcher := launchOf parent ownerPuzzleHash metadata
    checked [fund parent ownerPuzzleHash, launcher] launcher
      ⟨coinId launcher.coin, metadata, ownerPuzzleHash, delegatedPuzzles⟩
  updateRoot store _ metadata :=
    checked [updateOf store metadata] (updateOf store metadata) { store.info with metadata := metadata }
  melt store _ := .ok ⟨[meltOf store], none⟩

theorem checked_ok {coinSpends : List CoinSpend} {spend : CoinSpend} {info : DatastoreInfo}
    {built : MerkleCoinSpend} (h : checked coinSpends spend info = .ok built) :
    ∃ child, hydrate spend = .ok child ∧ child.info = info ∧ built = ⟨coinSpends, some child⟩ := by
  unfold checked at h
  split at h
  · split at h
    · cases h
      exact ⟨_, ‹_›, ‹_›, rfl⟩
    · cases h
  · cases h

theorem outputs_child {spend : CoinSpend} {child : Datastore} (hl : spend.solution.length ≠ 32)
    (h : hydrate spend = .ok child) : child.coin ∈ outputs spend := by
  rw [outputs, dif_neg hl, h]
  exact List.mem_singleton_self _

theorem outputs_fund (parent : Coin) (ownerPuzzleHash : Bytes32) (metadata : DigDataStoreMetadata) :
    (launchOf parent ownerPuzzleHash metadata).coin ∈ outputs (fund parent ownerPuzzleHash) := by
  have hl : (fund parent ownerPuzzleHash).solution.length = 32 := ownerPuzzleHash.length_eq
  rw [outputs, dif_pos hl]
  exact List.mem_singleton_self _

def protocol : UrnProtocol where
  canonicalChain := "chia"
  canonical urn := "urn:dig:" ++ urn.chain ++ ":" ++ Hex.encode urn.storeId.raw ++
    (match urn.rootHash with
      | some root => ":" ++ Hex.encode root.raw
      | none => "") ++
    (match urn.resourceKey with
      | some key => "/" ++ key
      | none => "")
  parse urn := .error s!"unsupported: {urn}"
  retrievalKey urn := urn.storeId

theorem protocol_canonical : protocol.Canonical where
  chain := rfl
  store _ _ := by simp [protocol]
  capsule _ _ _ := by simp [protocol, String.append_assoc]

/-- The chain that holds the given spends, with a record of every coin it knows. -/
def chain (spends : List CoinSpend) (records : List CoinRecord) : ChainSource String where
  coinSpend id := .ok (spends.find? fun spend => coinId spend.coin = id)
  coinRecord id := .ok (records.find? fun record => coinId record.coin = id)
  peakHeight := .ok (some 40)

theorem chain_grows {spends more : List CoinSpend} {records records' : List CoinRecord} {id : Bytes32}
    {spend : CoinSpend} (h : (chain spends records).coinSpend id = .ok (some spend)) :
    (chain (spends ++ more) records').coinSpend id = .ok (some spend) := by
  have hf : spends.find? (fun spend => coinId spend.coin = id) = some spend := Except.ok.inj h
  simp [chain, List.find?_append, hf]

def owner : Bytes32 := Bytes32.fill 0xA0

/-- The store launched from coin 1, updated once and melted. -/
def launch : CoinSpend := ⟨⟨Bytes32.fill 0, owner, 1⟩, [], [0x11, 7]⟩

def update : CoinSpend := ⟨⟨Bytes32.fill 1, owner, 2⟩, [1], [0x22, 7]⟩

def melt : CoinSpend := ⟨⟨Bytes32.fill 2, owner, 3⟩, [1], []⟩

def storeId : Bytes32 := Bytes32.fill 1

theorem seven_le : (7 : UInt8) ≤ 10 := by decide

def eve : Datastore where
  coin := ⟨Bytes32.fill 1, owner, 2⟩
  proof := .eve (Bytes32.fill 0) 1
  info := ⟨storeId, ⟨Bytes32.fill 0x11, none, none, none, none, some ⟨7, seven_le⟩⟩, owner, []⟩

def updated : Datastore where
  coin := ⟨Bytes32.fill 2, owner, 3⟩
  proof := .eve (Bytes32.fill 1) 2
  info := ⟨storeId, ⟨Bytes32.fill 0x22, none, none, none, none, some ⟨7, seven_le⟩⟩, owner, []⟩

def tipRecord : CoinRecord := ⟨updated.coin, some 12, none, none, false⟩

end DigStore.Simulator
