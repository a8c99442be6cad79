import DigStore.Distinct
import DigStore.Names
import DigStore.Progress

namespace DigStore.Settled

open Library.Dialogue Store Walk Status Lineages Agreement Distinct Names AppendOnly Snapshot Progress

theorem toNat_saturatingSub (a b : UInt32) : (saturatingSub a b).toNat = a.toNat - b.toNat := by
  unfold saturatingSub
  by_cases h : b ≤ a
  · rw [if_pos h, UInt32.toNat_sub_of_le _ _ h]
  · rw [if_neg h]
    rw [UInt32.le_iff_toNat_le] at h
    change 0 = _
    omega

theorem saturatingSub_mono {a a' : UInt32} (b : UInt32) (h : a ≤ a') : saturatingSub a b ≤ saturatingSub a' b := by
  rw [UInt32.le_iff_toNat_le] at h ⊢
  rw [toNat_saturatingSub, toNat_saturatingSub]
  omega

variable {U : Upstream} {T E : Type} [Preorder T] {chain : Evolution T E} {storeId : Bytes32} {target target' : UInt32}
  {τ τ' : ℕ →o T} {st st' : StoreStatus}

/-- A chain whose peak, where known, does not fall, and which confirms a coin at one
height for good. -/
structure Deepens (chain : Evolution T E) : Prop where
  peak_le : ∀ a b p p', a ≤ b → chain.peak a = .ok (some p) → chain.peak b = .ok (some p') → p ≤ p'
  one_height : ∀ a b id r r' h h', a ≤ b → chain.records a id = .ok (some r) → chain.records b id = .ok (some r') →
    r.confirmedHeight = some h → r'.confirmedHeight = some h' → h = h'

theorem live_later {a b : T} (hab : a ≤ b) {ds ds' : List Datastore} {tip tip' : Datastore}
    (h : LiveAt U (chain.at a) storeId ds tip) (h' : LiveAt U (chain.at b) storeId ds' tip') :
    ds <+: ds' ∧ (U.coinId tip.coin = U.coinId tip'.coin ↔ ds = ds') := by
  have hp : ds <+: ds' :=
    h'.isPrefix h'.last_eq h'.unspent.final ((at_view chain hab).generations h.toGenerations)
  refine ⟨hp, ?_⟩
  constructor
  · intro hcoin
    obtain ⟨rest, rfl⟩ := hp
    have hnodup := (List.nodup_cons.mp (live_nodup h')).2
    rw [List.map_append] at hnodup
    cases rest with
    | nil => rw [List.append_nil]
    | cons d rest =>
        have hlast := h'.last_eq
        rw [List.getLast?_append_of_ne_nil _ (List.cons_ne_nil d rest)] at hlast
        have hmem := List.mem_map_of_mem (f := fun d : Datastore => U.coinId d.coin) (List.mem_of_getLast? h.last_eq)
        have hmem' := List.mem_map_of_mem (f := fun d : Datastore => U.coinId d.coin) (List.mem_of_getLast? hlast)
        rw [← hcoin] at hmem'
        exact absurd hmem' (List.disjoint_of_nodup_append hnodup hmem)
  · rintro rfl
    rw [Option.some.inj (h.last_eq.symm.trans h'.last_eq)]

section Call

variable [ToString E]

theorem live_calls {a b : T} (hab : a ≤ b) {roots roots' : List Bytes32} {tip tip' : Datastore}
    (h : (chain.at a).call (walkOutcome U storeId) = .ok (.live roots tip))
    (h' : (chain.at b).call (walkOutcome U storeId) = .ok (.live roots' tip')) :
    (U.coinId tip.coin = U.coinId tip'.coin ↔ roots.length = roots'.length) ∧
      (U.coinId tip.coin = U.coinId tip'.coin → tip = tip') := by
  obtain ⟨ds, hlive, -, rfl⟩ := live_iff.mp h
  obtain ⟨ds', hlive', -, rfl⟩ := live_iff.mp h'
  obtain ⟨hp, hcoin⟩ := live_later hab hlive hlive'
  rw [hcoin, List.length_map, List.length_map]
  constructor
  · exact ⟨congrArg List.length, hp.eq_of_length⟩
  · rintro rfl
    exact Option.some.inj (hlive.last_eq.symm.trans hlive'.last_eq)

structure Advances (st st' : StoreStatus) : Prop where
  count_le : st.generationCount ≤ st'.generationCount
  unfound : st'.status = .notFound → st.status = .notFound
  melted : st.status = .melted → st' = st
  same_coin : st.status = .live → st'.status = .live →
    (st.coinId = st'.coinId ↔ st.generationCount = st'.generationCount)
  same_data : st.status = .live → st'.status = .live → st.coinId = st'.coinId →
    st.liveRoot = st'.liveRoot ∧ st.ownerPuzzleHash = st'.ownerPuzzleHash ∧ st.programHash = st'.programHash
  deepens : st.status = .live → st'.status = .live → st.coinId = st'.coinId →
    ∀ c c', st.confirmations = some c → st'.confirmations = some c' → c.have ≤ c'.have

omit [ToString E] in
theorem taken_confirmations (hD : Deepens chain) {i i' : ℕ} (hle : ∀ k < i + 2, τ k ≤ τ' 0)
    {roots roots' : List Bytes32} {tip : Datastore} {record record' : Option CoinRecord} {peak peak' : Option UInt32}
    (hr : chain.records (τ i) (U.coinId tip.coin) = .ok record) (hp : chain.peak (τ (i + 1)) = .ok peak)
    (hr' : chain.records (τ' i') (U.coinId tip.coin) = .ok record') (hp' : chain.peak (τ' (i' + 1)) = .ok peak')
    {c c' : Confirmations}
    (hc : (liveReport U storeId target roots tip record peak).confirmations = some c)
    (hc' : (liveReport U storeId target' roots' tip record' peak').confirmations = some c') : c.have ≤ c'.have := by
  obtain ⟨r, height, p, rfl, hh, rfl, rfl⟩ := liveReport_confirmations.mp hc
  obtain ⟨r', height', p', rfl, hh', rfl, rfl⟩ := liveReport_confirmations.mp hc'
  have hrecords : τ i ≤ τ' i' := (hle i (by omega)).trans (τ'.monotone (Nat.zero_le i'))
  have hpeaks : τ (i + 1) ≤ τ' (i' + 1) := (hle (i + 1) (by omega)).trans (τ'.monotone (Nat.zero_le (i' + 1)))
  obtain rfl := hD.one_height _ _ _ _ _ _ _ hrecords hr hr' hh hh'
  exact saturatingSub_mono height (hD.peak_le _ _ _ _ hpeaks hp hp')

/-- Of two statuses, the second asked for when the first was answered, the second is
never behind, and while the tip stays it is confirmed as deep or deeper. -/
theorem statuses_advance (hD : Deepens chain)
    (hst : (chain.during τ (getStoreStatus U storeId target)).result = .ok st)
    (hst' : (chain.during τ' (getStoreStatus U storeId target')).result = .ok st')
    (hle : ∀ i < (chain.during τ (getStoreStatus U storeId target)).trace.length, τ i ≤ τ' 0) : Advances st st' := by
  obtain ⟨last, w, hlast, hw, htaken⟩ := status_taken hst
  obtain ⟨last', w', -, hw', htaken'⟩ := status_taken hst'
  generalize (chain.during τ (getStoreStatus U storeId target)).trace.length = len at hle hlast htaken
  generalize (chain.during τ' (getStoreStatus U storeId target')).trace.length = len' at htaken'
  have hab : τ last ≤ τ' last' := (hle last hlast).trans (τ'.monotone (Nat.zero_le last'))
  have hroots := (roots_continue chain hab hw hw').length_le
  have hstage := stages_continue chain hab hw hw'
  cases htaken with
  | notFound => exact ⟨Nat.zero_le _, fun _ => rfl, nofun, nofun, nofun, nofun⟩
  | melted =>
      cases htaken' with
      | notFound | live => cases hstage
      | melted =>
          cases hstage
          exact ⟨le_rfl, nofun, fun _ => rfl, nofun, nofun, nofun⟩
  | live hr hp =>
      cases htaken' with
      | notFound => cases hstage
      | melted => exact ⟨hroots, nofun, nofun, nofun, nofun, nofun⟩
      | live hr' hp' =>
          obtain ⟨hcoin, htip⟩ := live_calls hab hw hw'
          refine ⟨hroots, nofun, nofun, fun _ _ => ?_, fun _ _ h => ?_, fun _ _ h c c' hc hc' => ?_⟩
          · exact (Option.some_inj.trans toHex_injective.eq_iff).trans hcoin
          · obtain rfl := htip (toHex_injective (Option.some.inj h))
            exact ⟨rfl, rfl, rfl⟩
          · obtain rfl := htip (toHex_injective (Option.some.inj h))
            exact taken_confirmations hD hle hr hp hr' hp' hc hc'

end Call

/-- The simulator's store is launched at the time 1 and updated at the time 2, and its
blocks come one at a time up to height 100. -/
def buried : Evolution ℕ String where
  spends a id := ([Simulator.launch, Simulator.update].take a).find? fun spend => Simulator.coinId spend.coin = id
  records _ id := .ok (if id = Simulator.coinId Simulator.updated.coin then some Simulator.tipRecord else none)
  peak a := .ok (some (UInt32.ofNat (min a 100)))
  grows hab h := (List.take_prefix_take_left hab).find?_eq_some h

theorem buried_deepens : Deepens buried where
  peak_le a b p p' hab hp hp' := by
    cases hp
    cases hp'
    have hcap (k : ℕ) : min k 100 < UInt32.size := lt_of_le_of_lt (Nat.min_le_right k 100) (by decide)
    rw [UInt32.le_iff_toNat_le, UInt32.toNat_ofNat_of_lt' (hcap a), UInt32.toNat_ofNat_of_lt' (hcap b)]
    omega
  one_height a b id r r' h h' _ hr hr' hh hh' := by
    cases hr.symm.trans hr'
    exact Option.some.inj (hh.symm.trans hh')

def buriedStatus (depth : UInt32) : StoreStatus :=
  liveReport Simulator.upstream Simulator.storeId 32 [Bytes32.fill 0x11, Bytes32.fill 0x22] Simulator.updated
    (some Simulator.tipRecord) (some (12 + depth))

theorem buried_statuses :
    (buried.during (OrderHom.const ℕ 20) (getStoreStatus Simulator.upstream Simulator.storeId 32)).result =
      .ok (buriedStatus 8) ∧
    (buried.during (OrderHom.const ℕ 60) (getStoreStatus Simulator.upstream Simulator.storeId 32)).result =
      .ok (buriedStatus 48) := by decide +kernel

theorem statuses_advance_buried : Advances (buriedStatus 8) (buriedStatus 48) :=
  statuses_advance buried_deepens buried_statuses.1 buried_statuses.2 fun _ _ => (by decide : 20 ≤ 60)

end DigStore.Settled
