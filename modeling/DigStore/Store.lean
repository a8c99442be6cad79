import DigStore.Chain
import DigStore.Urn

namespace DigStore.Store

open Library Library.Dialogue

def maxLineageGenerations : Nat := 100000

inductive WalkOutcome
  | notFound
  | melted (roots : List Bytes32)
  | live (roots : List Bytes32) (tip : Datastore)
  deriving DecidableEq

structure Lineage where
  roots : List Bytes32
  tip : Option Datastore
  deriving DecidableEq

def toHex (value : Bytes32) : String :=
  value.bytes.foldl (fun out byte => out ++ String.ofList (Hex.digits byte)) ""

section Walk

variable (U : Upstream) {E : Type} [ToString E]

def readVerifiedSpend (coinId : Bytes32) : Getter E (Option CoinSpend) := do
  let spend ← ofResult ((← Chain.coinSpend coinId).mapError
    fun error => DigStoreError.proof s!"chain read for {coinId}: {error}")
  match spend with
  | none => return none
  | some spend =>
    let returned := U.coinId spend.coin
    if returned ≠ coinId then
      throw (DigStoreError.proof s!"chain source returned a spend for coin {returned} when asked for {coinId}")
    else return some spend

/-- The loop of the walk. The cap is checked before the root is pushed, and the
roots pushed so far are what makes the loop end. -/
def walkLoop (storeId : Bytes32) (maxGenerations : Nat) (roots : List Bytes32)
    (current : Datastore) : Getter E WalkOutcome :=
  if _ : roots.length ≥ maxGenerations then
    throw (DigStoreError.proof (s!"store {storeId} lineage exceeds the {maxGenerations}-generation cap; " ++
      "refusing to follow further (possible hostile chain source)"))
  else do
    let roots' := roots ++ [current.info.metadata.rootHash]
    match ← readVerifiedSpend U (U.coinId current.coin) with
    | none => return .live roots' current
    | some spend =>
      match U.hydrate spend with
      | .ok child => walkLoop storeId maxGenerations roots' child
      | .error .missingLineage => return .melted roots'
      | .error error => throw (DigStoreError.proof s!"hydrate generation of {storeId}: {U.display error}")
termination_by maxGenerations - roots.length
decreasing_by simp only [List.length_append, List.length_singleton]; omega

def walkOutcomeBounded (storeId : Bytes32) (maxGenerations : Nat) : Getter E WalkOutcome := do
  match ← readVerifiedSpend U storeId with
  | none => return .notFound
  | some launcherSpend =>
    let current ← ofResult ((U.hydrate launcherSpend).mapError
      fun error => DigStoreError.proof s!"hydrate launcher of {storeId}: {U.display error}")
    if current.info.launcherId ≠ storeId then
      throw (DigStoreError.proof (s!"launcher mismatch: coin_spend({storeId}) hydrated store " ++
        s!"{current.info.launcherId}, not the requested store"))
    else walkLoop U storeId maxGenerations [] current

def walkOutcome (storeId : Bytes32) : Getter E WalkOutcome :=
  walkOutcomeBounded U storeId maxLineageGenerations

/-- The coarser view of the getters: an absent store is an error to them. -/
def lineageOf (storeId : Bytes32) : WalkOutcome → DigStoreResult Lineage
  | .notFound => .error (.proof s!"store {storeId} launcher not found on chain")
  | .melted roots => .ok ⟨roots, none⟩
  | .live roots tip => .ok ⟨roots, some tip⟩

def walkLineageBounded (storeId : Bytes32) (maxGenerations : Nat) : Getter E Lineage := do
  ofResult (lineageOf storeId (← walkOutcomeBounded U storeId maxGenerations))

def walkLineage (storeId : Bytes32) : Getter E Lineage :=
  walkLineageBounded U storeId maxLineageGenerations

end Walk

section Getters

variable (U : Upstream) (P : UrnProtocol) {E : Type} [ToString E]

def getStoreUrn (storeId : Bytes32) : String := Urn.storeUrn P storeId

/-- Who owns a store is found out by `dig-merkle`, which puts questions of its own to
the source. -/
def getStoreDidOwner (resolveOwnerDid : Bytes32 → Fallible (Answer E) MerkleError (Option DidRef))
    (storeId : Bytes32) : Getter E (Option DidRef) :=
  (resolveOwnerDid storeId).adapt fun error => .proof s!"owner-DID discovery: {U.display error}"

def liveTip (storeId : Bytes32) (lineage : Lineage) : DigStoreResult Datastore :=
  match lineage.tip with
  | some tip => .ok tip
  | none => .error (.proof s!"store {storeId} has been melted (no live tip)")

def getStoreSingletonTip (storeId : Bytes32) : Getter E Datastore := do
  ofResult (liveTip storeId (← walkLineage U storeId))

def getRootHistory (storeId : Bytes32) : Getter E RootHistory := do
  return ⟨(← walkLineage U storeId).roots⟩

/-- A field of the tip's metadata. The getters below differ in the field only. -/
def tipMetadata {α : Type} (field : DigDataStoreMetadata → α) (storeId : Bytes32) : Getter E α := do
  return field (← getStoreSingletonTip U storeId).info.metadata

def getLatestRoot (storeId : Bytes32) : Getter E Bytes32 := tipMetadata U (·.rootHash) storeId

def getLatestRootUrn (storeId : Bytes32) : Getter E String := do
  let root ← getLatestRoot U storeId
  return Urn.capsuleUrn P storeId root

def getStoreLabel (storeId : Bytes32) : Getter E (Option String) := tipMetadata U (·.label) storeId

def getStoreDescription (storeId : Bytes32) : Getter E (Option String) := tipMetadata U (·.description) storeId

def getStoreSizeBucket (storeId : Bytes32) : Getter E (Option SizeBucket) := tipMetadata U (·.sizeBucket) storeId

def getStoreProgramHash (storeId : Bytes32) : Getter E (Option Bytes32) := tipMetadata U (·.programHash) storeId

end Getters

section Status

variable (U : Upstream) {E : Type} [ToString E]

def peakHeight : Getter E (Option UInt32) := do
  ofResult ((← Chain.peakHeight).mapError fun error => DigStoreError.proof s!"peak-height read: {error}")

def saturatingSub (a b : UInt32) : UInt32 := if b ≤ a then a - b else 0

def liveReport (storeId : Bytes32) (confirmationTarget : UInt32) (roots : List Bytes32) (tip : Datastore)
    (record : Option CoinRecord) (peak : Option UInt32) : StoreStatus where
  status := .live
  storeId := toHex storeId
  confirmations := match peak, record.bind (·.confirmedHeight) with
    | some peak, some confirmed => some ⟨saturatingSub peak confirmed, confirmationTarget⟩
    | _, _ => none
  ownerPuzzleHash := some (toHex tip.info.ownerPuzzleHash)
  liveRoot := some (toHex tip.info.metadata.rootHash)
  programHash := tip.info.metadata.programHash.map toHex
  headSignature := none
  coinId := some (toHex (U.coinId tip.coin))
  verified := (record.map fun r => !U.isSpent r).getD false
  generationCount := roots.length

def liveStatus (storeId : Bytes32) (confirmationTarget : UInt32) (roots : List Bytes32)
    (tip : Datastore) : Getter E StoreStatus := do
  let coinId := U.coinId tip.coin
  let record ← ofResult ((← Chain.coinRecord coinId).mapError
    fun error => DigStoreError.proof s!"coin record for tip {coinId}: {error}")
  -- The walk saw the tip unspent, so a spent record contradicts it.
  if record.any U.isSpent then
    throw (DigStoreError.proof (s!"store {storeId} tip {coinId} resolved Live by the lineage walk, but its coin " ++
      "record reports it spent (contradiction) — refusing to report Live"))
  else return liveReport U storeId confirmationTarget roots tip record (← peakHeight)

def closedStatus (status : StoreStatusKind) (storeId : Bytes32) (generationCount : Nat) : StoreStatus where
  status := status
  storeId := toHex storeId
  confirmations := none
  ownerPuzzleHash := none
  liveRoot := none
  programHash := none
  headSignature := none
  coinId := none
  verified := false
  generationCount := generationCount

def getStoreStatus (storeId : Bytes32) (confirmationTarget : UInt32) : Getter E StoreStatus := do
  match ← walkOutcome U storeId with
  | .notFound => return closedStatus .notFound storeId 0
  | .melted roots => return closedStatus .melted storeId roots.length
  | .live roots tip => liveStatus U storeId confirmationTarget roots tip

end Status

end DigStore.Store
