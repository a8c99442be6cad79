import DigStore.Error
import DigStore.Library.Dialogue

namespace DigStore

open Library Library.Dialogue

inductive Query
  | coinSpend (coinId : Bytes32)
  | coinRecord (coinId : Bytes32)
  | peakHeight
  deriving DecidableEq

abbrev Answer (E : Type) : Query → Type
  | .coinSpend _ => Except E (Option CoinSpend)
  | .coinRecord _ => Except E (Option CoinRecord)
  | .peakHeight => Except E (Option UInt32)

abbrev Reading (E : Type) := Exchange (Answer E)

abbrev Getter (E α : Type) := Fallible (Answer E) DigStoreError α

namespace Chain

variable {E : Type}

def coinSpend (coinId : Bytes32) : Getter E (Except E (Option CoinSpend)) :=
  ask (A := Answer E) (.coinSpend coinId)

def coinRecord (coinId : Bytes32) : Getter E (Except E (Option CoinRecord)) :=
  ask (A := Answer E) (.coinRecord coinId)

def peakHeight : Getter E (Except E (Option UInt32)) := ask (A := Answer E) .peakHeight

end Chain

/-- A source whose answers are fixed during the call. -/
structure ChainSource (E : Type) where
  coinSpend : Bytes32 → Except E (Option CoinSpend)
  coinRecord : Bytes32 → Except E (Option CoinRecord)
  peakHeight : Except E (Option UInt32)

def ChainSource.answer {E : Type} (chain : ChainSource E) : (q : Query) → Answer E q
  | .coinSpend coinId => chain.coinSpend coinId
  | .coinRecord coinId => chain.coinRecord coinId
  | .peakHeight => chain.peakHeight

def ChainSource.consult {E α : Type} (chain : ChainSource E) (g : Getter E α) :
    Outcome (Answer E) (DigStoreResult α) :=
  Dialogue.consult chain.answer g.run

def ChainSource.call {E α : Type} (chain : ChainSource E) (g : Getter E α) : DigStoreResult α :=
  (chain.consult g).result

/-- The functions of other crates that the getters call. -/
structure Upstream where
  coinId : Coin → Bytes32
  hydrate : CoinSpend → Except MerkleError Datastore
  isSpent : CoinRecord → Bool
  display : MerkleError → String

end DigStore
