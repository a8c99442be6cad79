import DigStore.Error

namespace DigStore

open Library

structure UrnBytes32 where
  raw : List UInt8
  length_eq : raw.length = 32

structure DigUrn where
  chain : String
  storeId : UrnBytes32
  rootHash : Option UrnBytes32
  resourceKey : Option String

/-- The protocol crate: the canonical string of a name, its parser and its
retrieval key. A parse error is known here by its text only. -/
structure UrnProtocol where
  canonicalChain : String
  canonical : DigUrn → String
  parse : String → Except String DigUrn
  retrievalKey : DigUrn → UrnBytes32

/-- The canonical form: the protocol's own start, the chain and the lowercase
hex of the ids, separated by colons. -/
structure UrnProtocol.Canonical (P : UrnProtocol) : Prop where
  chain : P.canonicalChain = "chia"
  store : ∀ chain storeId, P.canonical ⟨chain, storeId, none, none⟩ =
    "urn:dig:" ++ chain ++ ":" ++ Hex.encode storeId.raw
  capsule : ∀ chain storeId rootHash, P.canonical ⟨chain, storeId, some rootHash, none⟩ =
    "urn:dig:" ++ chain ++ ":" ++ Hex.encode storeId.raw ++ ":" ++ Hex.encode rootHash.raw

/-- The parser undoes the canonical form of a name, and the retrieval key is the
hash of that form. -/
structure UrnProtocol.Keyed (P : UrnProtocol) (sha256 : String → UrnBytes32) : Prop where
  parse_canonical : ∀ storeId rootHash, P.parse (P.canonical ⟨P.canonicalChain, storeId, rootHash, none⟩) =
    .ok ⟨P.canonicalChain, storeId, rootHash, none⟩
  retrievalKey_eq : ∀ urn, P.retrievalKey urn = sha256 (P.canonical urn)

namespace Urn

def urnPrefix : String := "urn:dig:chia:"

def toUrnBytes (value : Bytes32) : UrnBytes32 := ⟨value.bytes, value.length_eq⟩

variable (P : UrnProtocol)

def storeUrn (storeId : Bytes32) : String :=
  P.canonical ⟨P.canonicalChain, toUrnBytes storeId, none, none⟩

def capsuleUrn (storeId rootHash : Bytes32) : String :=
  P.canonical ⟨P.canonicalChain, toUrnBytes storeId, some (toUrnBytes rootHash), none⟩

def retrievalKey (urn : String) : DigStoreResult Bytes32 :=
  match P.parse urn with
  | .error error => .error (.invalidUrn s!"{urn}: {error}")
  | .ok parsed => .ok ⟨(P.retrievalKey parsed).raw, (P.retrievalKey parsed).length_eq⟩

end Urn

end DigStore
