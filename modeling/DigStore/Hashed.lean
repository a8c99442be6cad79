import DigStore.Library.Sha256
import DigStore.Lineages
import DigStore.Simulator

namespace DigStore.Hashed

open Library Lineages

@[irreducible] def sha256 (bytes : List UInt8) : Bytes32 := ⟨Sha256.hash bytes, Sha256.length_hash bytes⟩

/-- A second stand-in for the other crates, in which coins and puzzles are named by
hashes and a spend is read only if its reveal has the puzzle hash of its coin. -/
def coinId (coin : Coin) : Bytes32 :=
  sha256 (coin.parentCoinInfo.bytes ++ coin.puzzleHash.bytes ++ [coin.amount.toUInt8])

def treeHash (puzzle : Program) : Bytes32 := sha256 (1 :: puzzle)

def launcherPuzzle : Program := []

def storePuzzle (launcherId root : Bytes32) : Program := launcherId.bytes ++ root.bytes

def readHash (program : Program) : Option Bytes32 :=
  if h : program.length = 32 then some ⟨program, h⟩ else none

def readPair (program : Program) : Option (Bytes32 × Bytes32) :=
  (readHash (program.take 32)).bind fun a => (readHash (program.drop 32)).map fun b => (a, b)

def metadata (root : Bytes32) : DigDataStoreMetadata := ⟨root, none, none, none, none, none⟩

def child (spend : CoinSpend) (puzzleHash launcherId root : Bytes32) : Datastore where
  coin := ⟨coinId spend.coin, puzzleHash, spend.coin.amount⟩
  proof := .eve spend.coin.parentCoinInfo spend.coin.amount
  info := ⟨launcherId, metadata root, Simulator.owner, []⟩

/-- The solution of a launcher names the puzzle hash of the first generation and its
root. Of a later generation the reveal names the store, the solution the next root. -/
def hydrate (spend : CoinSpend) : Except MerkleError Datastore :=
  if treeHash spend.puzzleReveal ≠ spend.coin.puzzleHash then .error (.chain "the reveal is of another puzzle")
  else if spend.coin.puzzleHash = treeHash launcherPuzzle then
    match readPair spend.solution with
    | some (puzzleHash, root) => .ok (child spend puzzleHash (coinId spend.coin) root)
    | none => .error .notDataStore
  else
    match readPair spend.puzzleReveal with
    | none => .error .notDataStore
    | some (launcherId, _) =>
      match readHash spend.solution with
      | some root => .ok (child spend (treeHash (storePuzzle launcherId root)) launcherId root)
      | none => .error .missingLineage

def upstream : Upstream := { Simulator.upstream with coinId := coinId, hydrate := hydrate }

theorem readHash_bytes (a : Bytes32) : readHash a.bytes = some a := by
  rw [readHash, dif_pos a.length_eq]

theorem readPair_append (a b : Bytes32) : readPair (a.bytes ++ b.bytes) = some (a, b) := by
  rw [readPair, List.take_left' a.length_eq, List.drop_left' a.length_eq, readHash_bytes, readHash_bytes]
  rfl

theorem hydrate_ok {spend : CoinSpend} {d : Datastore} (h : hydrate spend = .ok d) :
    treeHash spend.puzzleReveal = spend.coin.puzzleHash ∧
      (spend.coin.puzzleHash = treeHash launcherPuzzle → d.info.launcherId = coinId spend.coin) ∧
      d.coin.parentCoinInfo = coinId spend.coin := by
  unfold hydrate at h
  split at h
  · cases h
  · rename_i hreveal
    refine ⟨not_not.mp hreveal, ?_⟩
    split at h
    · split at h
      · cases h
        exact ⟨fun _ => rfl, rfl⟩
      · cases h
    · rename_i hlauncher
      split at h
      · cases h
      · split at h
        · cases h
          exact ⟨fun hl => absurd hl hlauncher, rfl⟩
        · cases h

theorem hydrate_launcher {spend : CoinSpend} {puzzleHash root : Bytes32}
    (hreveal : treeHash spend.puzzleReveal = spend.coin.puzzleHash)
    (hl : spend.coin.puzzleHash = treeHash launcherPuzzle) (hr : readPair spend.solution = some (puzzleHash, root)) :
    hydrate spend = .ok (child spend puzzleHash (coinId spend.coin) root) := by
  unfold hydrate
  rw [if_neg (not_not.mpr hreveal), if_pos hl, hr]

theorem hydrate_later {spend : CoinSpend} {launcherId root root' : Bytes32}
    (hreveal : treeHash spend.puzzleReveal = spend.coin.puzzleHash)
    (hl : spend.coin.puzzleHash ≠ treeHash launcherPuzzle) (hp : readPair spend.puzzleReveal = some (launcherId, root))
    (hr : readHash spend.solution = some root') :
    hydrate spend = .ok (child spend (treeHash (storePuzzle launcherId root')) launcherId root') := by
  unfold hydrate
  rw [if_neg (not_not.mpr hreveal), if_neg hl, hp]
  simp only [hr]

def chain (spends : List CoinSpend) (records : List CoinRecord) : ChainSource String where
  coinSpend id := .ok (spends.find? fun spend => coinId spend.coin = id)
  coinRecord id := .ok (records.find? fun record => coinId record.coin = id)
  peakHeight := .ok (some 40)

section Chain

variable {spend : CoinSpend} {rest : List CoinSpend} {records : List CoinRecord} {id : Bytes32}

theorem chain_found (h : coinId spend.coin = id) :
    (chain (spend :: rest) records).coinSpend id = .ok (some spend) :=
  congrArg Except.ok (List.find?_cons_of_pos (decide_eq_true h))

theorem chain_skip (h : coinId spend.coin ≠ id) :
    (chain (spend :: rest) records).coinSpend id = (chain rest records).coinSpend id := by
  apply congrArg Except.ok
  apply List.find?_cons_of_neg
  rw [decide_eq_true_iff]
  exact h

end Chain

/-- The spend of a launcher with the puzzle hash of any other store in its solution. -/
def forgedLaunch (launcher : Coin) (other root : Bytes32) : CoinSpend :=
  ⟨launcher, launcherPuzzle, (treeHash (storePuzzle other root)).bytes ++ root.bytes⟩

def forgedEve (launcher : Coin) (other root : Bytes32) : Datastore :=
  child (forgedLaunch launcher other root) (treeHash (storePuzzle other root)) (coinId launcher) root

/-- The other store's own reveal and solution, on the coin that the forged launcher makes. -/
def foreignUpdate (launcher : Coin) (other root root' : Bytes32) : CoinSpend :=
  ⟨(forgedEve launcher other root).coin, storePuzzle other root, root'.bytes⟩

def foreignTip (launcher : Coin) (other root root' : Bytes32) : Datastore :=
  child (foreignUpdate launcher other root root') (treeHash (storePuzzle other root')) other root'

def forgedSource (launcher : Coin) (other root root' : Bytes32) (records : List CoinRecord) : ChainSource String :=
  chain [forgedLaunch launcher other root, foreignUpdate launcher other root root'] records

/-- No coin or puzzle of the forged lineage hashes to that of another. -/
structure Separate (launcher : Coin) (other root root' : Bytes32) : Prop where
  eve_launcher : coinId (forgedEve launcher other root).coin ≠ coinId launcher
  tip_launcher : coinId (foreignTip launcher other root root').coin ≠ coinId launcher
  tip_eve : coinId (foreignTip launcher other root root').coin ≠ coinId (forgedEve launcher other root).coin
  puzzle : treeHash (storePuzzle other root) ≠ treeHash launcherPuzzle

/-- Of any store, a source can spell out a live lineage that ends as any other store:
the spends it answers with are of the right coins and reveal the right puzzles. -/
theorem forged_live {launcher : Coin} {other root root' : Bytes32} (records : List CoinRecord)
    (hl : launcher.puzzleHash = treeHash launcherPuzzle) (hs : Separate launcher other root root') :
    LiveAt upstream (forgedSource launcher other root root' records) (coinId launcher)
      [forgedEve launcher other root, foreignTip launcher other root root'] (foreignTip launcher other root root') where
  launched := ⟨_, rfl, forgedLaunch launcher other root, chain_found rfl, rfl,
    hydrate_launcher hl.symm hl (readPair_append _ _), rfl⟩
  recreated := by
    refine List.isChain_pair.mpr ⟨foreignUpdate launcher other root root', ?_, rfl,
      hydrate_later rfl hs.puzzle (readPair_append _ _) (readHash_bytes _)⟩
    exact (chain_skip hs.eve_launcher.symm).trans (chain_found rfl)
  last_eq := rfl
  unspent := (chain_skip hs.tip_launcher.symm).trans (chain_skip hs.tip_eve.symm)

end DigStore.Hashed
