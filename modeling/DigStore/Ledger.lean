import DigStore.Chain
import DigStore.Library.Keyed
import Mathlib.Data.List.Pairwise

namespace DigStore

open Library

/-- A ledger: the coins it knows, no two of one id, and at most one spend for
each, of a coin that exists. -/
structure Ledger (U : Upstream) where
  coins : List Coin
  spends : List CoinSpend
  unique : (coins.map U.coinId).Nodup
  once : (spends.map fun s => U.coinId s.coin).Nodup
  exist : ∀ s ∈ spends, s.coin ∈ coins

namespace Ledger

variable {U : Upstream} {outputs : CoinSpend → List Coin} {L : Ledger U} {bundle : List CoinSpend}
  {id : Bytes32} {s : CoinSpend} {c c' : Coin}

def spendOf (L : Ledger U) (id : Bytes32) : Option CoinSpend :=
  Keyed.lookup (fun s => U.coinId s.coin) L.spends id

/-- The bundle spends distinct coins, each unspent, and each known to the ledger or
created within the bundle. -/
structure Admits (outputs : CoinSpend → List Coin) (L : Ledger U) (bundle : List CoinSpend) : Prop where
  distinct : (bundle.map fun s => U.coinId s.coin).Nodup
  exist : ∀ s ∈ bundle, s.coin ∈ L.coins ++ bundle.flatMap outputs
  unspent : ∀ s ∈ bundle, L.spendOf (U.coinId s.coin) = none

instance : Decidable (Admits outputs L bundle) :=
  decidable_of_iff ((bundle.map fun s => U.coinId s.coin).Nodup ∧
      (∀ s ∈ bundle, s.coin ∈ L.coins ++ bundle.flatMap outputs) ∧
      ∀ s ∈ bundle, L.spendOf (U.coinId s.coin) = none)
    ⟨fun h => ⟨h.1, h.2.1, h.2.2⟩, fun h => ⟨h.distinct, h.exist, h.unspent⟩⟩

def Fresh (outputs : CoinSpend → List Coin) (L : Ledger U) (bundle : List CoinSpend) : Prop :=
  ((L.coins ++ bundle.flatMap outputs).map U.coinId).Nodup

def accept (L : Ledger U) (h : Admits outputs L bundle) (hf : Fresh outputs L bundle) : Ledger U where
  coins := L.coins ++ bundle.flatMap outputs
  spends := L.spends ++ bundle
  unique := hf
  once := Keyed.nodup_append L.once h.distinct h.unspent
  exist := by
    intro s hs
    rcases List.mem_append.mp hs with hs | hs
    · exact List.mem_append_left _ (L.exist s hs)
    · exact h.exist s hs

theorem spendOf_coin (hs : L.spendOf id = some s) : s.coin ∈ L.coins := L.exist s (Keyed.lookup_mem hs)

theorem fresh_output (hf : Fresh outputs L bundle) (hc : c ∈ bundle.flatMap outputs) (hc' : c' ∈ L.coins) :
    U.coinId c' ≠ U.coinId c := by
  rw [Fresh, List.map_append, List.nodup_append] at hf
  exact hf.2.2 _ (List.mem_map_of_mem hc') _ (List.mem_map_of_mem hc)

theorem fresh_spends (hf : Fresh outputs L bundle) {s s' : CoinSpend} (hs : s ∈ bundle) (hs' : s' ∈ bundle)
    (hne : s ≠ s') (hc : c ∈ outputs s) (hc' : c' ∈ outputs s') : U.coinId c ≠ U.coinId c' := by
  rw [Fresh, List.map_append, List.nodup_append, List.map_flatMap, List.nodup_flatMap] at hf
  have hsymm : Std.Symm (Function.onFun List.Disjoint fun s => (outputs s).map U.coinId) :=
    ⟨fun _ _ h _ ha ha' => h ha' ha⟩
  have hd := hf.2.1.2.forall hs hs' hne
  intro he
  exact hd (List.mem_map_of_mem hc) (he ▸ List.mem_map_of_mem hc')

variable {h : Admits outputs L bundle} {hf : Fresh outputs L bundle}

theorem accept_keeps (hs : L.spendOf id = some s) : (L.accept h hf).spendOf id = some s :=
  Keyed.lookup_append_keeps hs

theorem accept_unspent (hid : L.spendOf id = none) (hb : ∀ s ∈ bundle, U.coinId s.coin ≠ id) :
    (L.accept h hf).spendOf id = none :=
  Keyed.lookup_append_none hid hb

theorem accept_spent (hs : s ∈ bundle) : (L.accept h hf).spendOf (U.coinId s.coin) = some s :=
  Keyed.lookup_of_mem (L.accept h hf).once (List.mem_append_right _ hs)

theorem accept_coins (hc : c ∈ L.coins) : c ∈ (L.accept h hf).coins := List.mem_append_left _ hc

theorem accept_output (hs : s ∈ bundle) (hc : c ∈ outputs s) : c ∈ (L.accept h hf).coins :=
  List.mem_append_right _ (List.mem_flatMap.mpr ⟨s, hs, hc⟩)

theorem fresh_unspent (hf : Fresh outputs L bundle) (hc : c ∈ bundle.flatMap outputs) :
    L.spendOf (U.coinId c) = none :=
  Keyed.lookup_none.mpr fun s hs => fresh_output hf hc (L.exist s hs)

end Ledger

end DigStore
