import DigStore.Lineages
import DigStore.Simulator

namespace DigStore.Agreement

open Library Library.Dialogue Store Walk Getters Status Lineages

variable {U : Upstream} {P : UrnProtocol} {E : Type} [ToString E] {chain : ChainSource E}
  {storeId : Bytes32} {target : UInt32}

theorem toHex_eq (value : Bytes32) : toHex value = Hex.encode value.bytes := by
  rw [toHex, Hex.foldl_digits, String.empty_append]

theorem capsuleUrn_eq (hP : P.Canonical) (storeId root : Bytes32) :
    Urn.capsuleUrn P storeId root = Urn.urnPrefix ++ toHex storeId ++ ":" ++ toHex root := by
  rw [Urn.capsuleUrn, hP.capsule, hP.chain, toHex_eq, toHex_eq]
  rfl

theorem status_call (U : Upstream) (chain : ChainSource E) (storeId : Bytes32) (target : UInt32) :
    ∃ t, Reports U storeId target (fun _ w => chain.call (walkOutcome U storeId) = w) t
      (chain.call (getStoreStatus U storeId target)) ∧ ∀ e ∈ t, chain.answer e.1 = e.2 := by
  have h := status_run U storeId target (fixed chain.answer) ()
  exact ⟨_, h.mono fun _ _ _ hw => congrArg Outcome.result hw, consult_answers _ _⟩

/-- A status against fixed answers, by the outcome of its walk. -/
inductive Told (U : Upstream) (chain : ChainSource E) (storeId : Bytes32) (target : UInt32) : StoreStatus → Prop
  | notFound (hw : chain.call (walkOutcome U storeId) = .ok .notFound) :
      Told U chain storeId target (closedStatus .notFound storeId 0)
  | melted {roots} (hw : chain.call (walkOutcome U storeId) = .ok (.melted roots)) :
      Told U chain storeId target (closedStatus .melted storeId roots.length)
  | live {roots tip record peak} (hw : chain.call (walkOutcome U storeId) = .ok (.live roots tip))
      (hr : chain.coinRecord (U.coinId tip.coin) = .ok record) (hs : record.any U.isSpent = false)
      (hp : chain.peakHeight = .ok peak) :
      Told U chain storeId target (liveReport U storeId target roots tip record peak)

theorem status_told {st : StoreStatus} :
    chain.call (getStoreStatus U storeId target) = .ok st ↔ Told U chain storeId target st := by
  obtain ⟨t, hrep, ht⟩ := status_call U chain storeId target
  constructor
  · intro h
    rw [h] at hrep
    cases hrep with
    | notFound hw => exact .notFound hw
    | melted hw => exact .melted hw
    | @live _ _ _ tip _ hw ha =>
        cases ha with
        | reported record peak hs =>
            have hr := ht ⟨.coinRecord (U.coinId tip.coin), .ok record⟩ (by simp)
            have hp := ht ⟨.peakHeight, .ok peak⟩ (by simp)
            exact .live hw hr hs hp
  · intro h
    generalize chain.call (getStoreStatus U storeId target) = r at hrep ⊢
    cases h with
    | notFound hw =>
        cases hrep with
        | notFound => rfl
        | failed hw' | melted hw' | live hw' => cases hw.symm.trans hw'
    | melted hw =>
        cases hrep with
        | melted hw' =>
            cases hw.symm.trans hw'
            rfl
        | failed hw' | notFound hw' | live hw' => cases hw.symm.trans hw'
    | live hw hr hs hp =>
        cases hrep with
        | live hw' ha =>
            cases hw.symm.trans hw'
            exact (ha.of_answers (fun e he => ht e (List.mem_append_right _ he)) hr hs hp).2
        | failed hw' | notFound hw' | melted hw' => cases hw.symm.trans hw'

def rootsOf : WalkOutcome → List Bytes32
  | .notFound => []
  | .melted roots => roots
  | .live roots _ => roots

def kindOf : WalkOutcome → StoreStatusKind
  | .notFound => .notFound
  | .melted _ => .melted
  | .live _ _ => .live

theorem status_walk {st : StoreStatus} (h : chain.call (getStoreStatus U storeId target) = .ok st) :
    ∃ w, chain.call (walkOutcome U storeId) = .ok w ∧ st.status = kindOf w ∧
      st.generationCount = (rootsOf w).length := by
  cases status_told.mp h with
  | notFound hw | melted hw | live hw => exact ⟨_, hw, rfl, rfl⟩

theorem status_storeId {st : StoreStatus} (h : chain.call (getStoreStatus U storeId target) = .ok st) :
    st.storeId = toHex storeId := by
  cases status_told.mp h <;> rfl

theorem live_roots {roots : List Bytes32} {tip : Datastore}
    (hw : chain.call (walkOutcome U storeId) = .ok (.live roots tip)) : roots.getLast? = some tip.root := by
  obtain ⟨ds, h, -, rfl⟩ := live_iff.mp hw
  rw [List.getLast?_map, h.last_eq]
  rfl

theorem melted_roots {roots : List Bytes32} (hw : chain.call (walkOutcome U storeId) = .ok (.melted roots)) :
    roots.length ≠ 0 := by
  obtain ⟨ds, last, h, -, rfl⟩ := melted_iff.mp hw
  obtain ⟨d, hd, -⟩ := h.launched
  cases ds with
  | nil => cases hd
  | cons d ds => simp

theorem call_view {α : Type} (g : LineageGetter α) {w : WalkOutcome}
    (hw : chain.call (walkOutcome U storeId) = .ok w) :
    chain.call (g.call U P storeId) = g.view P storeId w := by
  rw [g.readsOff.call, hw]
  rfl

/-- A live status next to the getters, field by field. -/
structure LiveAgrees (U : Upstream) (P : UrnProtocol) (chain : ChainSource E) (storeId : Bytes32)
    (target : UInt32) (st : StoreStatus) (tip : Datastore) (history : RootHistory) : Prop where
  tip_ok : chain.call (getStoreSingletonTip U storeId) = .ok tip
  history_ok : chain.call (getRootHistory U storeId) = .ok history
  latest_ok : chain.call (getLatestRoot U storeId) = .ok tip.root
  latest_eq : history.latest = some tip.root
  live_root : st.liveRoot = some (toHex tip.root)
  owner : st.ownerPuzzleHash = some (toHex tip.info.ownerPuzzleHash)
  program_hash : st.programHash = tip.info.metadata.programHash.map toHex
  head_signature : st.headSignature = none
  coin_id : st.coinId = some (toHex (U.coinId tip.coin))
  generation_count : st.generationCount = history.generationCount
  latest_urn : chain.call (getLatestRootUrn U P storeId) =
    .ok (Urn.urnPrefix ++ st.storeId ++ ":" ++ toHex tip.root)
  verified_iff : st.verified = true ↔
    ∃ record, chain.coinRecord (U.coinId tip.coin) = .ok (some record) ∧ U.isSpent record = false
  confirmations_iff : ∀ c, st.confirmations = some c ↔ ∃ record confirmed peak,
    chain.coinRecord (U.coinId tip.coin) = .ok (some record) ∧ record.confirmedHeight = some confirmed ∧
      chain.peakHeight = .ok (some peak) ∧ c = ⟨saturatingSub peak confirmed, target⟩

theorem liveReport_verified {roots : List Bytes32} {tip : Datastore} {record : Option CoinRecord}
    {peak : Option UInt32} :
    (liveReport U storeId target roots tip record peak).verified = true ↔
      ∃ r, record = some r ∧ U.isSpent r = false := by
  cases record <;> simp [liveReport]

theorem liveReport_confirmations {roots : List Bytes32} {tip : Datastore} {record : Option CoinRecord}
    {peak : Option UInt32} {c : Confirmations} :
    (liveReport U storeId target roots tip record peak).confirmations = some c ↔
      ∃ r confirmed p, record = some r ∧ r.confirmedHeight = some confirmed ∧ peak = some p ∧
        c = ⟨saturatingSub p confirmed, target⟩ := by
  cases record with
  | none => cases peak <;> simp [liveReport]
  | some r =>
      cases hc : r.confirmedHeight <;> cases peak <;> simp [liveReport, hc, eq_comm]

theorem live_agrees (hP : P.Canonical) {roots : List Bytes32} {tip : Datastore} {record : Option CoinRecord}
    {peak : Option UInt32} (hw : chain.call (walkOutcome U storeId) = .ok (.live roots tip))
    (hr : chain.coinRecord (U.coinId tip.coin) = .ok record) (hp : chain.peakHeight = .ok peak) :
    LiveAgrees U P chain storeId target (liveReport U storeId target roots tip record peak) tip ⟨roots⟩ := by
  refine ⟨call_view (P := P) .singletonTip hw, call_view (P := P) .rootHistory hw,
    call_view (P := P) .latestRoot hw, live_roots hw, rfl, rfl, rfl, rfl, rfl, rfl, ?_, ?_, ?_⟩
  · exact (call_view .latestRootUrn hw).trans (congrArg Except.ok (capsuleUrn_eq hP storeId tip.root))
  · rw [liveReport_verified, hr]
    simp
  · intro c
    rw [liveReport_confirmations, hr, hp]
    simp

structure Agrees (U : Upstream) (P : UrnProtocol) (chain : ChainSource E) (storeId : Bytes32)
    (target : UInt32) : Prop where
  store_id : ∀ st, chain.call (getStoreStatus U storeId target) = .ok st → st.storeId = toHex storeId
  notFound_iff : (∃ st, chain.call (getStoreStatus U storeId target) = .ok st ∧ st.status = .notFound) ↔
    chain.coinSpend storeId = .ok none
  count_zero_iff : ∀ st, chain.call (getStoreStatus U storeId target) = .ok st →
    (st.generationCount = 0 ↔ st.status = .notFound)
  notFound_getters : chain.coinSpend storeId = .ok none →
    ∀ {α : Type} (g : LineageGetter α), ∃ detail, chain.call (g.call U P storeId) = .error (.proof detail)
  melted_iff : (∃ st, chain.call (getStoreStatus U storeId target) = .ok st ∧ st.status = .melted) ↔
    (∃ history, chain.call (getRootHistory U storeId) = .ok history) ∧
      ∃ error, chain.call (getStoreSingletonTip U storeId) = .error error
  melted_fields : ∀ st, chain.call (getStoreStatus U storeId target) = .ok st → st.status = .melted →
    ∃ history, chain.call (getRootHistory U storeId) = .ok history ∧
      st = closedStatus .melted storeId history.generationCount
  live_iff : (∃ st, chain.call (getStoreStatus U storeId target) = .ok st ∧ st.status = .live) ↔
    ∃ tip record peak, chain.call (getStoreSingletonTip U storeId) = .ok tip ∧
      chain.coinRecord (U.coinId tip.coin) = .ok record ∧ record.any U.isSpent = false ∧
      chain.peakHeight = .ok peak
  live_fields : ∀ st, chain.call (getStoreStatus U storeId target) = .ok st → st.status = .live →
    ∃ tip history, LiveAgrees U P chain storeId target st tip history

theorem status_notFound_iff :
    (∃ st, chain.call (getStoreStatus U storeId target) = .ok st ∧ st.status = .notFound) ↔
      chain.coinSpend storeId = .ok none := by
  constructor
  · intro ⟨st, h, hk⟩
    cases status_told.mp h with
    | notFound hw => exact Lineages.notFound_iff.mp hw
    | melted | live => cases hk
  · intro h
    exact ⟨_, status_told.mpr (.notFound (Lineages.notFound_iff.mpr h)), rfl⟩

theorem status_count_zero_iff {st : StoreStatus} (h : chain.call (getStoreStatus U storeId target) = .ok st) :
    st.generationCount = 0 ↔ st.status = .notFound := by
  cases status_told.mp h with
  | notFound => exact iff_of_true rfl rfl
  | melted hw => exact iff_of_false (melted_roots hw) (by simp [closedStatus])
  | @live roots tip _ _ hw =>
      have hlast := live_roots hw
      have hne : roots ≠ [] := by
        rintro rfl
        cases hlast
      apply iff_of_false
      · exact fun hlen => hne (List.length_eq_zero_iff.mp hlen)
      · simp [liveReport]

theorem getters_notFound (h : chain.coinSpend storeId = .ok none) {α : Type} (g : LineageGetter α) :
    ∃ detail, chain.call (g.call U P storeId) = .error (.proof detail) := by
  rw [call_view g (Lineages.notFound_iff.mpr h)]
  cases g <;> exact ⟨_, rfl⟩

theorem status_melted_iff :
    (∃ st, chain.call (getStoreStatus U storeId target) = .ok st ∧ st.status = .melted) ↔
      (∃ history, chain.call (getRootHistory U storeId) = .ok history) ∧
        ∃ error, chain.call (getStoreSingletonTip U storeId) = .error error := by
  constructor
  · intro ⟨st, h, hk⟩
    rw [history_readsOff.call, tip_readsOff.call]
    cases status_told.mp h with
    | notFound | live => cases hk
    | melted hw =>
        rw [hw]
        exact ⟨⟨_, rfl⟩, _, rfl⟩
  · intro ⟨⟨history, h⟩, error, he⟩
    obtain ⟨w, hw, hv⟩ := history_readsOff.call_ok h
    rw [tip_readsOff.call, hw] at he
    cases w with
    | notFound => cases hv
    | live roots tip => cases he
    | melted roots => exact ⟨_, status_told.mpr (.melted hw), rfl⟩

theorem melted_agrees {st : StoreStatus} (h : chain.call (getStoreStatus U storeId target) = .ok st)
    (hk : st.status = .melted) :
    ∃ history, chain.call (getRootHistory U storeId) = .ok history ∧
      st = closedStatus .melted storeId history.generationCount := by
  cases status_told.mp h with
  | notFound | live => cases hk
  | @melted roots hw =>
      refine ⟨⟨roots⟩, ?_, rfl⟩
      rw [history_readsOff.call, hw]
      rfl

theorem status_live_iff :
    (∃ st, chain.call (getStoreStatus U storeId target) = .ok st ∧ st.status = .live) ↔
      ∃ tip record peak, chain.call (getStoreSingletonTip U storeId) = .ok tip ∧
        chain.coinRecord (U.coinId tip.coin) = .ok record ∧ record.any U.isSpent = false ∧
        chain.peakHeight = .ok peak := by
  constructor
  · intro ⟨st, h, hk⟩
    cases status_told.mp h with
    | notFound | melted => cases hk
    | @live roots tip record peak hw hr hs hp =>
        refine ⟨tip, record, peak, ?_, hr, hs, hp⟩
        rw [tip_readsOff.call, hw]
        rfl
  · intro ⟨tip, record, peak, h, hr, hs, hp⟩
    obtain ⟨roots, hw⟩ := tip_call h
    exact ⟨_, status_told.mpr (.live hw hr hs hp), rfl⟩

theorem live_status_agrees (hP : P.Canonical) {st : StoreStatus}
    (h : chain.call (getStoreStatus U storeId target) = .ok st) (hk : st.status = .live) :
    ∃ tip history, LiveAgrees U P chain storeId target st tip history := by
  cases status_told.mp h with
  | notFound | melted => cases hk
  | @live roots tip record peak hw hr hs hp => exact ⟨tip, ⟨roots⟩, live_agrees hP hw hr hp⟩

/-- The two read paths over one walk agree, the canonical form of a name being
the protocol's. -/
theorem status_agrees (hP : P.Canonical) (U : Upstream) (chain : ChainSource E) (storeId : Bytes32)
    (target : UInt32) : Agrees U P chain storeId target where
  store_id _ := status_storeId
  notFound_iff := status_notFound_iff
  count_zero_iff _ := status_count_zero_iff
  notFound_getters h := getters_notFound h
  melted_iff := status_melted_iff
  melted_fields _ := melted_agrees
  live_iff := status_live_iff
  live_fields _ := live_status_agrees hP

theorem status_agrees_updated :
    Simulator.protocol.Canonical ∧
      Agrees Simulator.upstream Simulator.protocol
        (Simulator.chain [Simulator.launch, Simulator.update] [Simulator.tipRecord]) Simulator.storeId 32 :=
  ⟨Simulator.protocol_canonical, status_agrees Simulator.protocol_canonical _ _ _ _⟩

end DigStore.Agreement
