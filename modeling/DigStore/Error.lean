import DigStore.Types

namespace DigStore

/-- The failures of `dig-merkle`. The upstream enumeration may grow, so the last
constructor stands for a variant this crate does not know yet. -/
inductive MerkleError
  | invalidSize (message : String)
  | missingLineage
  | notDataStore
  | unsupportedOwner (detail : String)
  | chain (detail : String)
  | other (detail : String)
  deriving DecidableEq

inductive DigStoreError
  | invalidSize (message : String)
  | sizeProofMismatch (anchoredK actualK : UInt8) (actualBytes : UInt64)
  | invalidUrn (detail : String)
  | proof (detail : String)
  | capsule (detail : String)
  | spend (detail : String)
  deriving DecidableEq

abbrev DigStoreResult (α : Type) := Except DigStoreError α

/-- The conversion behind `?` on a `dig-merkle` result. An out-of-range size
keeps its kind, every other failure is a spend that could not be built. -/
def DigStoreError.ofMerkle (display : MerkleError → String) : MerkleError → DigStoreError
  | .invalidSize message => .invalidSize message
  | other => .spend (display other)

def DigStoreError.IsProof : DigStoreError → Prop
  | .proof _ => True
  | _ => False

end DigStore
