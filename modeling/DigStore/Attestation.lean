import DigStore.Agreement
import DigStore.Reads
import DigStore.Simulator

namespace DigStore.Attestation

open Library Library.Dialogue Store Walk Status Lineages Agreement Reads

variable {U : Upstream} {E σ : Type} {storeId : Bytes32} {target : UInt32} {n : Nat} {t : List (Reading E)}

/-- A live status that attests something rests on a record of the coin it reports. -/
def Bound (U : Upstream) (o : Outcome (Answer E) (DigStoreResult StoreStatus)) : Prop :=
  ∀ st, o.result = .ok st → st.status = .live → (st.verified = true ∨ st.confirmations.isSome) →
    ∃ coinId r, ⟨.coinRecord coinId, .ok (some r)⟩ ∈ o.trace ∧ st.coinId = some (toHex coinId) ∧
      U.coinId r.coin = coinId

/-- Every record the source answers with is of the coin asked about, if the call
goes on to read a peak. -/
def RecordsOwn (U : Upstream) (t : List (Reading E)) : Prop :=
  ∀ coinId r peak, ⟨.coinRecord coinId, .ok (some r)⟩ ∈ t → ⟨.peakHeight, .ok peak⟩ ∈ t →
    U.coinId r.coin = coinId

theorem walks_no_record {r : DigStoreResult WalkOutcome} (h : Walks U storeId n t r) (coinId : Bytes32)
    (a : Except E (Option CoinRecord)) : (⟨.coinRecord coinId, a⟩ : Reading E) ∉ t := by
  intro hm
  exact absurd (walks_spends h _ hm) (by simp [isCoinSpend])

theorem walks_no_peak {r : DigStoreResult WalkOutcome} (h : Walks U storeId n t r)
    (a : Except E (Option UInt32)) : (⟨.peakHeight, a⟩ : Reading E) ∉ t := by
  intro hm
  exact absurd (walks_spends h _ hm) (by simp [isCoinSpend])

theorem liveReport_attests {roots : List Bytes32} {tip : Datastore} {record : Option CoinRecord}
    {peak : Option UInt32} (h : (liveReport U storeId target roots tip record peak).verified = true ∨
      (liveReport U storeId target roots tip record peak).confirmations.isSome) : ∃ r, record = some r := by
  cases record with
  | none => cases peak <;> simp [liveReport] at h
  | some r => exact ⟨r, rfl⟩

theorem reports_bound_iff {r : DigStoreResult StoreStatus} (h : Reports U storeId target (Walks U storeId n) t r) :
    Bound U ⟨t, r⟩ ↔ RecordsOwn U t := by
  cases h with
  | failed hw | notFound hw | melted hw =>
      apply iff_of_true
      · intro st hst hlive
        cases hst <;> cases hlive
      · intro coinId r peak hm
        exact absurd hm (walks_no_record hw coinId _)
  | @live w u roots tip r hw ha =>
      have hrecord {coinId a} (hm : (⟨.coinRecord coinId, a⟩ : Reading E) ∈ w ++ u) :
          (⟨.coinRecord coinId, a⟩ : Reading E) ∈ u :=
        (List.mem_append.mp hm).resolve_left (walks_no_record hw coinId a)
      have hpeak {a} (hm : (⟨.peakHeight, a⟩ : Reading E) ∈ w ++ u) : (⟨.peakHeight, a⟩ : Reading E) ∈ u :=
        (List.mem_append.mp hm).resolve_left (walks_no_peak hw a)
      cases ha with
      | unread e detail | contradicted record detail hs | noPeak record e detail hs =>
          apply iff_of_true (fun st hst => nomatch hst)
          intro coinId r peak _ hp
          simpa using hpeak hp
      | reported record peak hs =>
          -- The report rests on the one record that was read, whosever coin that is of.
          constructor
          · intro hb coinId r peak' hm _
            obtain ⟨rfl, rfl⟩ : coinId = U.coinId tip.coin ∧ record = some r := by simpa [eq_comm] using hrecord hm
            have hv : (liveReport U storeId target roots tip (some r) peak).verified = true :=
              liveReport_verified.mpr ⟨r, rfl, by simpa using hs⟩
            obtain ⟨coinId, r', hm', -, hr'⟩ := hb _ rfl rfl (.inl hv)
            obtain ⟨rfl, rfl⟩ : coinId = U.coinId tip.coin ∧ r = r' := by simpa [eq_comm] using hrecord hm'
            exact hr'
          · intro hown st hst hlive hatt
            cases hst
            obtain ⟨r, rfl⟩ := liveReport_attests hatt
            refine ⟨U.coinId tip.coin, r, by simp, rfl, ?_⟩
            exact hown _ r peak (by simp) (by simp)

variable [ToString E]

theorem status_bound_iff (srv : Server (Answer E) σ) (s : σ) :
    Bound U (run srv s (getStoreStatus U storeId target).run) ↔
      RecordsOwn U (run srv s (getStoreStatus U storeId target).run).trace := by
  have hrep := getStoreStatus_runs (runs_run srv s (getStoreStatus (E := E) U storeId target).run)
  exact reports_bound_iff (hrep.mono fun _ _ _ => walkOutcomeBounded_runs)

def TipRecordOwn (U : Upstream) (chain : ChainSource E) (storeId : Bytes32) : Prop :=
  ∀ ds tip r peak, LiveAt U chain storeId ds tip → ds.length ≤ maxLineageGenerations →
    chain.coinRecord (U.coinId tip.coin) = .ok (some r) → U.isSpent r = false →
    chain.peakHeight = .ok peak → U.coinId r.coin = U.coinId tip.coin

theorem consult_record {chain : ChainSource E} {ds : List Datastore} {tip : Datastore} {r : CoinRecord}
    {peak : Option UInt32} (h : LiveAt U chain storeId ds tip) (hcap : ds.length ≤ maxLineageGenerations)
    (hr : chain.coinRecord (U.coinId tip.coin) = .ok (some r)) (hs : U.isSpent r = false)
    (hp : chain.peakHeight = .ok peak) :
    ⟨.coinRecord (U.coinId tip.coin), .ok (some r)⟩ ∈ (chain.consult (getStoreStatus U storeId target)).trace ∧
      ⟨.peakHeight, .ok peak⟩ ∈ (chain.consult (getStoreStatus U storeId target)).trace := by
  have hrep := status_run U storeId target (fixed chain.answer) ()
  have ht := consult_answers chain.answer (getStoreStatus U storeId target).run
  have hcall : chain.call (walkOutcome U storeId) = .ok (.live (ds.map Datastore.root) tip) := h.call hcap
  rw [consult] at ht
  rw [ChainSource.consult, Dialogue.consult]
  generalize run (fixed chain.answer) () (getStoreStatus U storeId target).run = o at hrep ht ⊢
  obtain ⟨t, result⟩ := o
  cases hrep with
  | failed hw | notFound hw | melted hw => cases hcall.symm.trans (congrArg Outcome.result hw)
  | @live w u roots tip' r' hw ha =>
      cases hcall.symm.trans (congrArg Outcome.result hw)
      obtain ⟨rfl, -⟩ := ha.of_answers (fun e he => ht e (List.mem_append_right _ he)) hr hs hp
      simp

theorem consult_bound_iff (chain : ChainSource E) :
    Bound U (chain.consult (getStoreStatus U storeId target)) ↔ TipRecordOwn U chain storeId := by
  apply (status_bound_iff (fixed chain.answer) ()).trans
  constructor
  · intro hown ds tip r peak h hcap hr hs hp
    obtain ⟨hrecord, hpeak⟩ := consult_record h hcap hr hs hp
    exact hown _ r peak hrecord hpeak
  · intro htip coinId r peak hr hp
    have hrep := getStoreStatus_runs (runs_consult chain.answer (getStoreStatus U storeId target).run)
    have ht := consult_answers chain.answer (getStoreStatus U storeId target).run
    rw [← consult] at hr hp
    generalize consult chain.answer (getStoreStatus U storeId target).run = o at hrep ht hr hp
    obtain ⟨t, result⟩ := o
    cases hrep with
    | failed hw | notFound hw | melted hw => exact absurd hr (walks_no_record (walkOutcomeBounded_runs hw) _ _)
    | @live w u roots tip r' hw ha =>
        have htw (e) (he : e ∈ w) : chain.answer e.1 = e.2 := ht e (List.mem_append_left _ he)
        have hc : chain.call (walkOutcome U storeId) = _ := congrArg Outcome.result (hw.consult_eq htw)
        obtain ⟨ds, h, hcap, -⟩ := live_iff.mp hc
        have hm := (List.mem_append.mp hr).resolve_left (walks_no_record (walkOutcomeBounded_runs hw) _ _)
        have hpm := (List.mem_append.mp hp).resolve_left (walks_no_peak (walkOutcomeBounded_runs hw) _)
        cases ha with
        | unread e detail => simp at hm
        | contradicted record detail => simp at hpm
        | noPeak record e detail => simp at hpm
        | reported record peak' hs =>
            obtain ⟨rfl, rfl⟩ : coinId = U.coinId tip.coin ∧ record = some r := by simpa [eq_comm] using hm
            exact htip ds tip r peak' h hcap (ht _ hr) (by simpa using hs)
              (ht ⟨.peakHeight, .ok peak'⟩ (by simp))

/-- A status attests by the tip's own record exactly when the source answers with
that record. The code itself compares no coin of a record with the coin it asked
about. -/
theorem bound_iff_records_own (srv : Server (Answer E) σ) (s : σ) (chain : ChainSource E) (storeId : Bytes32)
    (target : UInt32) :
    (Bound U (run srv s (getStoreStatus U storeId target).run) ↔
      RecordsOwn U (run srv s (getStoreStatus U storeId target).run).trace) ∧
    (Bound U (chain.consult (getStoreStatus U storeId target)) ↔ TipRecordOwn U chain storeId) :=
  ⟨status_bound_iff srv s, consult_bound_iff chain⟩

def foreignRecord : CoinRecord := ⟨Simulator.eve.coin, some 12, none, none, false⟩

def foreignRecords : ChainSource String :=
  { Simulator.chain [Simulator.launch, Simulator.update] [] with coinRecord := fun _ => .ok (some foreignRecord) }

theorem foreignRecord_attested :
    foreignRecords.call (getStoreStatus Simulator.upstream Simulator.storeId 32) =
      .ok (liveReport Simulator.upstream Simulator.storeId 32 [Bytes32.fill 0x11, Bytes32.fill 0x22]
        Simulator.updated (some foreignRecord) (some 40)) ∧
    ¬Bound Simulator.upstream
      (foreignRecords.consult (getStoreStatus Simulator.upstream Simulator.storeId 32)) := by
  refine ⟨by decide +kernel, fun h => ?_⟩
  have hlive : LiveAt Simulator.upstream foreignRecords Simulator.storeId [Simulator.eve, Simulator.updated]
      Simulator.updated :=
    ⟨⟨⟨_, rfl, Simulator.launch, rfl, rfl, rfl, rfl⟩,
      List.isChain_pair.mpr ⟨Simulator.update, rfl, rfl, rfl⟩⟩, rfl, rfl⟩
  have hown := (consult_bound_iff foreignRecords).mp h
  exact absurd (hown _ _ foreignRecord (some 40) hlive (by decide) rfl rfl rfl) (by decide)

end DigStore.Attestation
