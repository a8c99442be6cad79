import DigStore.Agreement
import DigStore.Library.Sha256

namespace DigStore.Names

open Library Store Urn Agreement

variable {P : UrnProtocol} {sha256 : String → UrnBytes32}

theorem toHex_injective : Function.Injective toHex := by
  intro s s' h
  rw [toHex_eq, toHex_eq] at h
  cases s
  cases s'
  cases Hex.encode_injective h
  rfl

theorem length_toHex (s : Bytes32) : (toHex s).length = 64 := by
  rw [toHex_eq, Hex.length_encode, s.length_eq]

theorem decode_toHex (s : Bytes32) : Hex.decode (toHex s) = some s.bytes := by
  rw [toHex_eq, Hex.decode_encode]

theorem exists_toHex (text : String) (hlen : text.length = 64) (hmem : ∀ c ∈ text.toList, c ∈ Hex.alphabet) :
    ∃! s, toHex s = text := by
  obtain ⟨bytes, hbytes, hdigits⟩ := Hex.exists_encode 32 text.toList hlen hmem
  have htext : toHex ⟨bytes, hbytes⟩ = text := by
    rw [toHex_eq, Hex.encode, hdigits, String.ofList_toList]
  refine ⟨⟨bytes, hbytes⟩, htext, ?_⟩
  intro s hs
  exact toHex_injective (hs.trans htext.symm)

theorem storeUrn_eq (hP : P.Canonical) (s : Bytes32) : storeUrn P s = urnPrefix ++ toHex s := by
  rw [storeUrn, hP.store, hP.chain, toHex_eq]
  rfl

theorem capsuleUrn_storeUrn (hP : P.Canonical) (s r : Bytes32) :
    capsuleUrn P s r = storeUrn P s ++ ":" ++ toHex r := by
  rw [capsuleUrn_eq hP, storeUrn_eq hP]

/-- What has a name: a store, or one generation of it. -/
inductive Named
  | store (storeId : Bytes32)
  | capsule (storeId rootHash : Bytes32)
  deriving DecidableEq

def Named.urn (P : UrnProtocol) : Named → String
  | .store storeId => storeUrn P storeId
  | .capsule storeId rootHash => capsuleUrn P storeId rootHash

def Named.parsed (P : UrnProtocol) : Named → DigUrn
  | .store storeId => ⟨P.canonicalChain, toUrnBytes storeId, none, none⟩
  | .capsule storeId rootHash => ⟨P.canonicalChain, toUrnBytes storeId, some (toUrnBytes rootHash), none⟩

theorem storeUrn_injective (hP : P.Canonical) : Function.Injective (storeUrn P) := by
  intro s s' h
  rw [storeUrn_eq hP, storeUrn_eq hP] at h
  exact toHex_injective ((String.append_right_inj _).mp h)

theorem length_storeUrn (hP : P.Canonical) (s : Bytes32) : (storeUrn P s).length = 77 := by
  rw [storeUrn_eq hP, String.length_append, length_toHex]
  rfl

theorem length_capsuleUrn (hP : P.Canonical) (s r : Bytes32) : (capsuleUrn P s r).length = 142 := by
  rw [capsuleUrn_storeUrn hP, String.length_append, String.length_append, length_storeUrn hP, length_toHex]
  rfl

theorem toList_capsuleUrn (hP : P.Canonical) (s r : Bytes32) :
    (capsuleUrn P s r).toList = (storeUrn P s).toList ++ ':' :: (toHex r).toList := by
  rw [capsuleUrn_storeUrn hP, String.toList_append, String.toList_append, List.append_assoc]
  rfl

theorem capsuleUrn_injective (hP : P.Canonical) {s r s' r' : Bytes32} (h : capsuleUrn P s r = capsuleUrn P s' r') :
    s = s' ∧ r = r' := by
  -- Store URNs have one length, so the two names split at the same place.
  have hlist := congrArg String.toList h
  rw [toList_capsuleUrn hP, toList_capsuleUrn hP] at hlist
  have hlen : (storeUrn P s).toList.length = (storeUrn P s').toList.length := by
    rw [String.length_toList, String.length_toList, length_storeUrn hP, length_storeUrn hP]
  obtain ⟨hstore, hroot⟩ := List.append_inj hlist hlen
  refine ⟨storeUrn_injective hP (String.toList_inj.mp hstore), ?_⟩
  exact toHex_injective (String.toList_inj.mp (List.cons.inj hroot).2)

theorem urn_injective (hP : P.Canonical) : Function.Injective (Named.urn P) := by
  intro x y h
  have hlen := congrArg String.length h
  cases x with
  | store s =>
      cases y with
      | store s' => exact congrArg Named.store (storeUrn_injective hP h)
      | capsule s' r' =>
          rw [Named.urn, Named.urn, length_storeUrn hP, length_capsuleUrn hP] at hlen
          cases hlen
  | capsule s r =>
      cases y with
      | store s' =>
          rw [Named.urn, Named.urn, length_storeUrn hP, length_capsuleUrn hP] at hlen
          cases hlen
      | capsule s' r' =>
          obtain ⟨rfl, rfl⟩ := capsuleUrn_injective hP h
          rfl

/-- Two different texts with one hash. -/
def Collision (sha256 : String → UrnBytes32) (a b : String) : Prop := a ≠ b ∧ sha256 a = sha256 b

theorem retrievalKey_urn (hK : P.Keyed sha256) (x : Named) :
    retrievalKey P (x.urn P) = .ok ⟨(sha256 (x.urn P)).raw, (sha256 (x.urn P)).length_eq⟩ := by
  have hcanonical : x.urn P = P.canonical (x.parsed P) := by
    cases x <;> rfl
  have hparse : P.parse (x.urn P) = .ok (x.parsed P) := by
    rw [hcanonical]
    cases x <;> exact hK.parse_canonical _ _
  rw [retrievalKey, hparse]
  simp only [hK.retrievalKey_eq, ← hcanonical]

theorem retrievalKey_eq_iff (hP : P.Canonical) (hK : P.Keyed sha256) {x y : Named}
    (hc : ¬Collision sha256 (x.urn P) (y.urn P)) :
    retrievalKey P (x.urn P) = retrievalKey P (y.urn P) ↔ x = y := by
  constructor
  · intro h
    rw [retrievalKey_urn hK, retrievalKey_urn hK] at h
    have hraw : (sha256 (x.urn P)).raw = (sha256 (y.urn P)).raw := congrArg Bytes32.bytes (Except.ok.inj h)
    have hsha : sha256 (x.urn P) = sha256 (y.urn P) := by
      cases hx : sha256 (x.urn P)
      cases hy : sha256 (y.urn P)
      rw [hx, hy] at hraw
      cases hraw
      rfl
    by_contra hne
    exact hc ⟨fun hu => hne (urn_injective hP hu), hsha⟩
  · rintro rfl
    rfl

/-- Names tell stores and generations apart, as texts and by their keys. -/
structure Apart (P : UrnProtocol) (sha256 : String → UrnBytes32) : Prop where
  hex_length : ∀ s, (toHex s).length = 64
  hex_digits : ∀ s, ∀ c ∈ (toHex s).toList, c ∈ Hex.alphabet
  hex_decode : ∀ s, Hex.decode (toHex s) = some s.bytes
  hex_unique : ∀ text : String, text.length = 64 → (∀ c ∈ text.toList, c ∈ Hex.alphabet) → ∃! s, toHex s = text
  store_eq : ∀ s, storeUrn P s = urnPrefix ++ toHex s
  capsule_eq : ∀ s r, capsuleUrn P s r = storeUrn P s ++ ":" ++ toHex r
  store_injective : ∀ s s', storeUrn P s = storeUrn P s' → s = s'
  capsule_injective : ∀ s r s' r', capsuleUrn P s r = capsuleUrn P s' r' → s = s' ∧ r = r'
  store_ne_capsule : ∀ s s' r, storeUrn P s ≠ capsuleUrn P s' r
  key_ok : ∀ x : Named, ∃ key, retrievalKey P (x.urn P) = .ok key
  key_apart : ∀ x y : Named, ¬Collision sha256 (x.urn P) (y.urn P) →
    (retrievalKey P (x.urn P) = retrievalKey P (y.urn P) ↔ x = y)

/-- The names of stores and generations never collide, and two of their keys do
only where the hash itself does. -/
theorem names_apart (hP : P.Canonical) (hK : P.Keyed sha256) : Apart P sha256 where
  hex_length := length_toHex
  hex_digits s := by
    rw [toHex_eq]
    exact Hex.encode_mem s.bytes
  hex_decode := decode_toHex
  hex_unique := exists_toHex
  store_eq := storeUrn_eq hP
  capsule_eq := capsuleUrn_storeUrn hP
  store_injective _ _ h := storeUrn_injective hP h
  capsule_injective _ _ _ _ h := capsuleUrn_injective hP h
  store_ne_capsule s s' r h := by
    cases urn_injective hP (show Named.urn P (.store s) = Named.urn P (.capsule s' r) from h)
  key_ok x := ⟨_, retrievalKey_urn hK x⟩
  key_apart _ _ hc := retrievalKey_eq_iff hP hK hc

/-- The parser of names alone, without the resources of a generation. -/
def idOf (cs : List Char) : Option UrnBytes32 :=
  match Hex.readDigits cs with
  | some raw => if h : raw.length = 32 then some ⟨raw, h⟩ else none
  | none => none

def nameOf (cs : List Char) : Option DigUrn :=
  if cs.take 13 = urnPrefix.toList then do
    let storeId ← idOf ((cs.drop 13).take 64)
    match (cs.drop 13).drop 64 with
    | [] => some ⟨"chia", storeId, none, none⟩
    | ':' :: root => do
      let rootHash ← idOf root
      some ⟨"chia", storeId, some rootHash, none⟩
    | _ => none
  else none

def hashed (text : String) : UrnBytes32 := ⟨Sha256.hash text.toUTF8.toList, Sha256.length_hash _⟩

def protocol : UrnProtocol :=
  { Simulator.protocol with
    parse text :=
      match nameOf text.toList with
      | some urn => .ok urn
      | none => .error "not a name"
    retrievalKey urn := hashed (Simulator.protocol.canonical urn) }

theorem idOf_digits (id : UrnBytes32) : idOf (id.raw.flatMap Hex.digits) = some id := by
  rw [idOf, Hex.readDigits_digits]
  exact dif_pos id.length_eq

theorem nameOf_body (id : UrnBytes32) (rest : List Char) :
    nameOf (urnPrefix.toList ++ (id.raw.flatMap Hex.digits ++ rest)) =
      match rest with
      | [] => some ⟨"chia", id, none, none⟩
      | ':' :: root => do
        let rootHash ← idOf root
        some ⟨"chia", id, some rootHash, none⟩
      | _ => none := by
  have hpre : urnPrefix.toList.length = 13 := rfl
  have hid : (id.raw.flatMap Hex.digits).length = 64 := by
    rw [Hex.length_flatMap_digits, id.length_eq]
  rw [nameOf, List.take_left' hpre, List.drop_left' hpre, List.take_left' hid, List.drop_left' hid, if_pos rfl,
    idOf_digits]
  rfl

theorem protocol_canonical : protocol.Canonical where
  chain := rfl
  store := Simulator.protocol_canonical.store
  capsule := Simulator.protocol_canonical.capsule

theorem protocol_parse {text : String} {urn : DigUrn} (h : nameOf text.toList = some urn) :
    protocol.parse text = .ok urn := by
  change (match nameOf text.toList with
    | some urn => Except.ok urn
    | none => Except.error "not a name") = _
  rw [h]

theorem toList_store (storeId : UrnBytes32) :
    (protocol.canonical ⟨"chia", storeId, none, none⟩).toList =
      urnPrefix.toList ++ (storeId.raw.flatMap Hex.digits ++ []) := by
  rw [protocol_canonical.store, String.toList_append, Hex.encode, String.toList_ofList, List.append_nil]
  rfl

theorem toList_capsule (storeId root : UrnBytes32) :
    (protocol.canonical ⟨"chia", storeId, some root, none⟩).toList =
      urnPrefix.toList ++ (storeId.raw.flatMap Hex.digits ++ ':' :: root.raw.flatMap Hex.digits) := by
  rw [protocol_canonical.capsule, Hex.encode, Hex.encode]
  simp only [String.toList_append, String.toList_ofList, List.append_assoc]
  rfl

theorem nameOf_canonical (storeId : UrnBytes32) (rootHash : Option UrnBytes32) :
    nameOf (protocol.canonical ⟨"chia", storeId, rootHash, none⟩).toList = some ⟨"chia", storeId, rootHash, none⟩ := by
  cases rootHash with
  | none => rw [toList_store, nameOf_body]
  | some root =>
      rw [toList_capsule, nameOf_body]
      simp only [idOf_digits]
      rfl

theorem protocol_keyed : protocol.Keyed hashed where
  retrievalKey_eq _ := rfl
  parse_canonical storeId rootHash := by
    have hchain : protocol.canonicalChain = "chia" := rfl
    rw [hchain]
    exact protocol_parse (nameOf_canonical storeId rootHash)

theorem names_apart_hashed : Apart protocol hashed := names_apart protocol_canonical protocol_keyed

end DigStore.Names
