import DigStore.Status

namespace DigStore.Reads

open Library.Dialogue Store Walk Status

variable {U : Upstream} {E σ : Type} {storeId : Bytes32} {n : Nat} {t : List (Reading E)}

def isCoinSpend : Query → Bool
  | .coinSpend _ => true
  | _ => false

def isCoinRecord : Query → Bool
  | .coinRecord _ => true
  | _ => false

def Advances (U : Upstream) : Reading E → Prop
  | ⟨.coinSpend coinId, .ok (some s)⟩ => U.coinId s.coin = coinId ∧ ∃ d, U.hydrate s = .ok d
  | _ => False

theorem hops_length {d last : Datastore} {ds : List Datastore} (h : Hops U d t ds last) :
    ds.length = t.length + 1 := by
  induction h with
  | here => rfl
  | hop _ _ _ ih => simp [ih]

theorem hops_spends {d last : Datastore} {ds : List Datastore} (h : Hops U d t ds last) :
    ∀ e ∈ t, isCoinSpend e.1 = true := by
  induction h with
  | here => simp
  | hop _ _ _ ih => simpa [isCoinSpend] using ih

theorem stops_spends {last : Datastore} {roots : List Bytes32} {r : DigStoreResult WalkOutcome}
    (h : Stops U n last roots t r) : ∀ e ∈ t, isCoinSpend e.1 = true := by
  cases h <;> simp [isCoinSpend]

theorem stops_length {last : Datastore} {roots : List Bytes32} {r : DigStoreResult WalkOutcome}
    (h : Stops U n last roots t r) : roots.length + t.length ≤ n + 1 := by
  cases h <;> simp <;> omega

/-- If every answer leads further, only the cap can end the loop. -/
theorem stops_endless {last : Datastore} {roots : List Bytes32} {r : DigStoreResult WalkOutcome}
    (h : Stops U n last roots t r) (hall : ∀ e ∈ t, Advances U e) :
    (∃ detail, r = .error (.proof detail)) ∧ t = [] ∧ roots.length = n + 1 := by
  cases h with
  | cap detail h => exact ⟨⟨detail, rfl⟩, rfl, h⟩
  | live h => exact absurd (hall _ List.mem_cons_self) id
  | melted s h hs hm =>
      obtain ⟨-, d, hd⟩ := hall _ List.mem_cons_self
      rw [hm] at hd
      cases hd
  | refused a detail h ha =>
      have hadv := hall _ List.mem_cons_self
      match a, hadv, ha with
      | .ok (some s), ⟨hs, d, hd⟩, .inl ha => exact absurd hs ha
      | .ok (some s), ⟨hs, d, hd⟩, .inr ⟨e, he, _⟩ =>
          rw [hd] at he
          cases he

structure WalkReads (U : Upstream) (storeId : Bytes32) (n : Nat)
    (o : Outcome (Answer E) (DigStoreResult WalkOutcome)) : Prop where
  spends : ∀ e ∈ o.trace, isCoinSpend e.1 = true
  bounded : o.trace.length ≤ n + 1
  notFound : o.result = .ok .notFound → o.trace.length = 1
  melted : ∀ roots, o.result = .ok (.melted roots) →
    o.trace.length = roots.length + 1 ∧ 1 ≤ roots.length ∧ roots.length ≤ n
  live : ∀ roots tip, o.result = .ok (.live roots tip) →
    o.trace.length = roots.length + 1 ∧ 1 ≤ roots.length ∧ roots.length ≤ n
  endless : (∀ e ∈ o.trace, Advances U e) →
    (∀ coinId s d, o.trace.head? = some ⟨.coinSpend coinId, .ok (some s)⟩ → U.hydrate s = .ok d →
      d.info.launcherId = storeId) →
    (∃ detail, o.result = .error (.proof detail)) ∧ o.trace.length = n + 1

theorem walks_spends {r : DigStoreResult WalkOutcome} (h : Walks U storeId n t r) :
    ∀ e ∈ t, isCoinSpend e.1 = true := by
  cases h with
  | notFound | refused => simp [isCoinSpend]
  | follows hs hd hid hops hstop =>
      intro e he
      rcases List.mem_cons.mp he with rfl | he
      · rfl
      · rcases List.mem_append.mp he with he | he
        · exact hops_spends hops e he
        · exact stops_spends hstop e he

theorem walks_reads {r : DigStoreResult WalkOutcome} (h : Walks U storeId n t r) :
    WalkReads U storeId n ⟨t, r⟩ := by
  have hspends := walks_spends h
  cases h with
  | notFound =>
      refine ⟨hspends, by simp, by simp, by simp, by simp, fun hall _ => ?_⟩
      exact absurd (hall _ List.mem_cons_self) id
  | refused a detail ha =>
      refine ⟨hspends, by simp, by simp, by simp, by simp, fun hall hid => ?_⟩
      have hadv := hall _ List.mem_cons_self
      match a, hadv, ha, hid with
      | .ok (some s), ⟨hs, d, hd⟩, .inl ha, _ => exact absurd hs ha
      | .ok (some s), ⟨hs, d, hd⟩, .inr ha, hid => exact absurd (hid _ _ _ rfl hd) (ha d hd)
  | @follows s d t₁ t₂ ds last r hs hd hid hops hstop =>
      have hlen := hops_length hops
      have hroots : (ds.map Datastore.root).length = t₁.length + 1 := by simp [hlen]
      have hle := stops_length hstop
      refine ⟨hspends, by simp; omega, ?_, ?_, ?_, ?_⟩
      · intro hr
        cases hstop <;> cases hr
      · intro roots hr
        cases hstop <;> cases hr
        simp only [List.length_cons, List.length_append, List.length_nil]
        omega
      · intro roots tip hr
        cases hstop <;> cases hr
        simp only [List.length_cons, List.length_append, List.length_nil]
        omega
      · intro hall _
        obtain ⟨hr, rfl, hn⟩ := stops_endless hstop
          (fun e he => hall e (List.mem_cons_of_mem _ (List.mem_append_right _ he)))
        refine ⟨hr, ?_⟩
        simp only [List.length_cons, List.length_append, List.length_nil]
        omega

/-- What the status reads after its walk: nothing but one record, of the tip the
walk ended with, and one peak. -/
def StatusReads (U : Upstream) (walk : Outcome (Answer E) (DigStoreResult WalkOutcome))
    (t : List (Reading E)) : Prop :=
  ∃ u, t = walk.trace ++ u ∧ (∀ e ∈ u, isCoinSpend e.1 = false) ∧
    (u.filter fun e => isCoinRecord e.1).length ≤ 1 ∧ (u.filter fun e => e.1 = .peakHeight).length ≤ 1 ∧
    (u ≠ [] → ∃ roots tip, walk.result = .ok (.live roots tip) ∧
      ∀ coinId, .coinRecord coinId ∈ u.map Sigma.fst → coinId = U.coinId tip.coin)

theorem attests_reads {target : UInt32} {roots : List Bytes32} {tip : Datastore}
    {r : DigStoreResult StoreStatus} (h : Attests U storeId target roots tip t r) :
    (∀ e ∈ t, isCoinSpend e.1 = false) ∧ (t.filter fun e => isCoinRecord e.1).length ≤ 1 ∧
      (t.filter fun e => e.1 = .peakHeight).length ≤ 1 ∧
      ∀ coinId, .coinRecord coinId ∈ t.map Sigma.fst → coinId = U.coinId tip.coin := by
  cases h <;> simp [isCoinSpend, isCoinRecord]

variable [ToString E]

theorem status_reads (srv : Server (Answer E) σ) (s : σ) (target : UInt32) :
    StatusReads U (run srv s (walkOutcome U storeId).run)
      (run srv s (getStoreStatus U storeId target).run).trace := by
  have h := status_run U storeId target srv s
  generalize run srv s (getStoreStatus U storeId target).run = o at h ⊢
  obtain ⟨t, r⟩ := o
  cases h with
  | failed hw | notFound hw | melted hw =>
      rw [hw]
      exact ⟨[], by simp⟩
  | @live w u roots tip r hw ha =>
      obtain ⟨hspend, hrecord, hpeak, hid⟩ := attests_reads ha
      rw [hw]
      exact ⟨u, rfl, hspend, hrecord, hpeak, fun _ => ⟨roots, tip, rfl, hid⟩⟩

/-- The walk ends against every source, and its reads are counted by the roots. -/
theorem reads_bounded (srv : Server (Answer E) σ) (s : σ) (storeId : Bytes32) (n : Nat)
    (target : UInt32) :
    WalkReads U storeId n (run srv s (walkOutcomeBounded U storeId n).run) ∧
      StatusReads U (run srv s (walkOutcome U storeId).run)
        (run srv s (getStoreStatus U storeId target).run).trace :=
  ⟨walks_reads (walkOutcomeBounded_runs (runs_run srv s _)), status_reads srv s target⟩

end DigStore.Reads
