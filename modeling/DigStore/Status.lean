import DigStore.Getters

namespace DigStore.Status

open Library.Dialogue Store Walk

variable {U : Upstream} {E : Type} {storeId : Bytes32} {target : UInt32}

/-- What the live branch of the status reads, and what it makes of it. -/
inductive Attests (U : Upstream) (storeId : Bytes32) (target : UInt32) (roots : List Bytes32)
    (tip : Datastore) : List (Reading E) → DigStoreResult StoreStatus → Prop
  | unread (e) (detail) : Attests U storeId target roots tip
      [⟨.coinRecord (U.coinId tip.coin), .error e⟩] (.error (.proof detail))
  | contradicted (record) (detail) (h : U.isSpent record = true) : Attests U storeId target roots tip
      [⟨.coinRecord (U.coinId tip.coin), .ok (some record)⟩] (.error (.proof detail))
  | noPeak (record) (e) (detail) (h : record.any U.isSpent = false) : Attests U storeId target roots tip
      [⟨.coinRecord (U.coinId tip.coin), .ok record⟩, ⟨.peakHeight, .error e⟩] (.error (.proof detail))
  | reported (record) (peak) (h : record.any U.isSpent = false) : Attests U storeId target roots tip
      [⟨.coinRecord (U.coinId tip.coin), .ok record⟩, ⟨.peakHeight, .ok peak⟩]
      (.ok (liveReport U storeId target roots tip record peak))

inductive Reports (U : Upstream) (storeId : Bytes32) (target : UInt32)
    (walk : List (Reading E) → DigStoreResult WalkOutcome → Prop) :
    List (Reading E) → DigStoreResult StoreStatus → Prop
  | failed {t e} (hw : walk t (.error e)) : Reports U storeId target walk t (.error e)
  | notFound {t} (hw : walk t (.ok .notFound)) :
      Reports U storeId target walk t (.ok (closedStatus .notFound storeId 0))
  | melted {t roots} (hw : walk t (.ok (.melted roots))) :
      Reports U storeId target walk t (.ok (closedStatus .melted storeId roots.length))
  | live {t u roots tip r} (hw : walk t (.ok (.live roots tip)))
      (ha : Attests U storeId target roots tip u r) : Reports U storeId target walk (t ++ u) r

theorem Reports.mono {walk walk' : List (Reading E) → DigStoreResult WalkOutcome → Prop}
    {t : List (Reading E)} {r : DigStoreResult StoreStatus} (h : Reports U storeId target walk t r)
    (hw : ∀ t' w, t' <+: t → walk t' w → walk' t' w) : Reports U storeId target walk' t r := by
  cases h with
  | failed h => exact .failed (hw _ _ (List.prefix_refl _) h)
  | notFound h => exact .notFound (hw _ _ (List.prefix_refl _) h)
  | melted h => exact .melted (hw _ _ (List.prefix_refl _) h)
  | live h ha => exact .live (hw _ _ (List.prefix_append _ _) h) ha

variable {t : List (Reading E)} {r : DigStoreResult StoreStatus}

theorem Attests.of_answers {chain : ChainSource E} {roots : List Bytes32} {tip : Datastore}
    {record : Option CoinRecord} {peak : Option UInt32} (h : Attests U storeId target roots tip t r)
    (ht : ∀ e ∈ t, chain.answer e.1 = e.2) (hr : chain.coinRecord (U.coinId tip.coin) = .ok record)
    (hs : record.any U.isSpent = false) (hp : chain.peakHeight = .ok peak) :
    t = [⟨.coinRecord (U.coinId tip.coin), .ok record⟩, ⟨.peakHeight, .ok peak⟩] ∧
      r = .ok (liveReport U storeId target roots tip record peak) := by
  have hrecord (a) (hm : ⟨.coinRecord (U.coinId tip.coin), a⟩ ∈ t) : Except.ok record = a :=
    hr.symm.trans (ht ⟨.coinRecord (U.coinId tip.coin), a⟩ hm)
  have hpeak (a) (hm : ⟨.peakHeight, a⟩ ∈ t) : Except.ok peak = a := hp.symm.trans (ht ⟨.peakHeight, a⟩ hm)
  cases h with
  | unread e detail => cases hrecord (.error e) (by simp)
  | contradicted record' detail hs' =>
      cases hrecord (.ok (some record')) (by simp)
      cases hs.symm.trans hs'
  | noPeak record' e detail => cases hpeak (.error e) (by simp)
  | reported record' peak' =>
      cases hrecord (.ok record') (by simp)
      cases hpeak (.ok peak') (by simp)
      exact ⟨rfl, rfl⟩

variable [ToString E]

theorem peakHeight_runs {r : DigStoreResult (Option UInt32)} (h : Runs (Store.peakHeight (E := E)).run t r) :
    (∃ e detail, t = [⟨.peakHeight, .error e⟩] ∧ r = .error (.proof detail)) ∨
      ∃ peak, t = [⟨.peakHeight, .ok peak⟩] ∧ r = .ok peak := by
  obtain ⟨a, t, rfl, hr⟩ := runs_ask_seq.mp h
  cases a with
  | error e =>
      obtain ⟨rfl, rfl⟩ := runs_ofResult.mp hr
      exact .inl ⟨e, _, rfl, rfl⟩
  | ok peak =>
      obtain ⟨rfl, rfl⟩ := runs_ofResult.mp hr
      exact .inr ⟨peak, rfl, rfl⟩

theorem liveStatus_runs {roots : List Bytes32} {tip : Datastore}
    (h : Runs (liveStatus U storeId target roots tip).run t r) :
    Attests U storeId target roots tip t r := by
  obtain ⟨a, t, rfl, hr⟩ := runs_ask_seq.mp h
  cases a with
  | error e =>
      obtain ⟨rfl, rfl⟩ := runs_done.mp hr
      exact .unread e _
  | ok record =>
      simp only [Except.mapError, ofResult_ok_seq] at hr
      split at hr
      · rename_i hs
        obtain ⟨record, rfl, hs⟩ := Option.any_eq_true .. |>.mp hs
        obtain ⟨rfl, rfl⟩ := runs_throw.mp hr
        exact .contradicted record _ hs
      · rename_i hs
        have hs : record.any U.isSpent = false := by simpa using hs
        rcases runs_seq.mp hr with ⟨e, rfl, hp⟩ | ⟨t₁, a, t₂, rfl, hp, hr⟩
        · rcases peakHeight_runs hp with ⟨e, detail, rfl, he⟩ | ⟨peak, -, he⟩
          · cases he
            exact .noPeak record e detail hs
          · cases he
        · obtain ⟨rfl, rfl⟩ := runs_done.mp hr
          rcases peakHeight_runs hp with ⟨e, detail, -, he⟩ | ⟨peak, rfl, he⟩
          · cases he
          · cases he
            exact .reported record a hs

theorem getStoreStatus_runs (h : Runs (getStoreStatus U storeId target).run t r) :
    Reports U storeId target (fun t w => Runs (walkOutcome U storeId).run t w) t r := by
  rcases runs_seq.mp h with ⟨e, rfl, hw⟩ | ⟨t₁, w, t₂, rfl, hw, hr⟩
  · exact .failed hw
  · cases w with
    | notFound =>
        obtain ⟨rfl, rfl⟩ := runs_done.mp hr
        exact .notFound (by simpa using hw)
    | melted roots =>
        obtain ⟨rfl, rfl⟩ := runs_done.mp hr
        exact .melted (by simpa using hw)
    | live roots tip => exact .live hw (liveStatus_runs hr)

/-- The walk within a status is the walk that the same source would be led on alone. -/
theorem status_run {σ : Type} (U : Upstream) (storeId : Bytes32) (target : UInt32) (srv : Server (Answer E) σ)
    (s : σ) :
    Reports U storeId target (fun t w => run srv s (walkOutcome U storeId).run = ⟨t, w⟩)
      (run srv s (getStoreStatus U storeId target).run).trace
      (run srv s (getStoreStatus U storeId target).run).result := by
  have hstatus := getStoreStatus_runs (runs_run srv s (getStoreStatus (E := E) U storeId target).run)
  have hwalk := runs_run srv s (walkOutcome (E := E) U storeId).run
  apply hstatus.mono
  intro t w ht hw
  obtain ⟨htrace, hresult⟩ := hwalk.unique hw (run_trace_bind srv s _ _) ht
  exact congr (congrArg Outcome.mk htrace) hresult

end DigStore.Status
