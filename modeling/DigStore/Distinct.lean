import DigStore.Agreement

namespace DigStore.Distinct

open Library.Dialogue Library.Trail Store Walk Getters Status FailClosed Lineages Agreement

variable {U : Upstream} {P : UrnProtocol} {E : Type} {chain : ChainSource E} {storeId : Bytes32} {n : Nat}
  {ds : List Datastore} {last : Datastore}

def coinsOf (U : Upstream) (storeId : Bytes32) (ds : List Datastore) : List Bytes32 :=
  storeId :: ds.map fun d => U.coinId d.coin

theorem recreates_coin (d d' c : Datastore) (h : U.coinId d.coin = U.coinId d'.coin) (hr : Recreates U chain d c) :
    Recreates U chain d' c := by
  obtain ⟨s, hs, hid, hc⟩ := hr
  rw [h] at hs hid
  exact ⟨s, hs, hid, hc⟩

/-- A lineage that ends never comes to a coin twice, nor back to its launcher. -/
theorem generations_nodup (h : Generations U chain storeId ds) (hlast : ds.getLast? = some last)
    (hf : Final (Recreates U chain) last) : (coinsOf U storeId ds).Nodup := by
  obtain ⟨d, hd, s, hs, hid, hc, -⟩ := h.launched
  obtain ⟨rest, rfl⟩ := List.head?_eq_some_iff.mp hd
  have hend : ∀ c ∈ (d :: rest).getLast?, Final (Recreates U chain) c := by
    intro c hc
    rw [hlast] at hc
    cases hc
    exact hf
  apply List.nodup_cons.mpr
  constructor
  · intro hmem
    obtain ⟨b, hb, hcoin⟩ := List.mem_map.mp hmem
    have hback : Recreates U chain b d := by
      refine ⟨s, ?_, ?_, hc⟩
      · rw [hcoin]
        exact hs
      · rw [hcoin]
        exact hid
    exact no_return recreates_unique h.recreated hend hb hback
  · exact nodup_of_final (fun d : Datastore => U.coinId d.coin) recreates_unique recreates_coin h.recreated hend

theorem live_nodup (h : LiveAt U chain storeId ds last) : (coinsOf U storeId ds).Nodup :=
  generations_nodup h.toGenerations h.last_eq h.unspent.final

theorem melted_nodup (h : MeltedAt U chain storeId ds last) : (coinsOf U storeId ds).Nodup :=
  generations_nodup h.toGenerations h.last_eq h.melts.final

theorem stops_roots {t : List (Reading E)} {roots : List Bytes32} {w : WalkOutcome}
    (h : Stops U n last roots t (.ok w)) : rootsOf w = roots := by
  cases h <;> rfl

theorem walks_distinct {t : List (Reading E)} {w : WalkOutcome} (h : Walks U storeId n t (.ok w))
    (ht : ∀ e ∈ t, chain.answer e.1 = e.2) (hw : w ≠ .notFound) :
    (coinsOf U storeId (generationsOf U t)).Nodup ∧ rootsOf w = (generationsOf U t).map Datastore.root := by
  cases h with
  | notFound => exact absurd rfl hw
  | @follows s d t₁ t₂ ds last _ hs hd hid hops hstop =>
      have hq : chain.coinSpend storeId = .ok (some s) := ht _ List.mem_cons_self
      have ht₁ (e) (he : e ∈ t₁) : chain.answer e.1 = e.2 :=
        ht e (List.mem_cons_of_mem _ (List.mem_append_left _ he))
      have ht₂ (e) (he : e ∈ t₂) : chain.answer e.1 = e.2 :=
        ht e (List.mem_cons_of_mem _ (List.mem_append_right _ he))
      obtain ⟨hg, hlast⟩ := hops_launched hops hs hd hid hq ht₁
      rw [follows_generations storeId hd hops hstop]
      refine ⟨?_, stops_roots hstop⟩
      cases hstop with
      | live => exact live_nodup ⟨hg, hlast, ht₂ _ List.mem_cons_self⟩
      | melted s' _ hs' hm => exact melted_nodup ⟨hg, hlast, s', ht₂ _ List.mem_cons_self, hs', hm⟩

section Call

variable [ToString E]

theorem status_error {e : DigStoreError} (target : UInt32) (hw : chain.call (walkOutcome U storeId) = .error e) :
    chain.call (getStoreStatus U storeId target) = .error e := by
  obtain ⟨t, h, -⟩ := status_call U chain storeId target
  generalize chain.call (getStoreStatus U storeId target) = r at h ⊢
  cases h with
  | failed h =>
      cases hw.symm.trans h
      rfl
  | notFound h | melted h | live h => cases hw.symm.trans h

theorem revisit_error (h : Generations U chain storeId ds) (hd : ¬(coinsOf U storeId ds).Nodup) :
    ∃ detail, chain.call (walkOutcomeBounded U storeId n) = .error (.proof detail) := by
  -- A lineage that ends contains every other, and would repeat a coin as well.
  have hlonger {ds' : List Datastore} (hpre : ds <+: ds') (hn : (coinsOf U storeId ds').Nodup) : False := by
    have hsub : (coinsOf U storeId ds).Sublist (coinsOf U storeId ds') :=
      (hpre.map fun d : Datastore => U.coinId d.coin).sublist.cons_cons storeId
    exact hd (hn.sublist hsub)
  apply error_iff.mpr
  refine ⟨h.present, ?_, ?_⟩
  · rintro ⟨ds', tip, h', -⟩
    exact hlonger (h'.isPrefix h'.last_eq h'.unspent.final h) (live_nodup h')
  · rintro ⟨ds', last, h', -⟩
    exact hlonger (h'.isPrefix h'.last_eq h'.melts.final h) (melted_nodup h')

/-- No generation is counted twice: an answered walk passed through coins that are
all different, and a source that leads back to any of them gets an error from
every reader. -/
theorem never_counted_twice (U : Upstream) (P : UrnProtocol) (chain : ChainSource E) (storeId : Bytes32) (n : Nat) :
    (∀ w, chain.call (walkOutcomeBounded U storeId n) = .ok w → w ≠ .notFound →
      (coinsOf U storeId (generationsOf U (chain.consult (walkOutcomeBounded U storeId n)).trace)).Nodup ∧
        rootsOf w = (generationsOf U (chain.consult (walkOutcomeBounded U storeId n)).trace).map Datastore.root) ∧
    (∀ ds, Generations U chain storeId ds → ¬(coinsOf U storeId ds).Nodup →
      (∃ detail, chain.call (walkOutcomeBounded U storeId n) = .error (.proof detail)) ∧
      (∀ {α : Type} (g : LineageGetter α), ∃ detail, chain.call (g.call U P storeId) = .error (.proof detail)) ∧
      ∀ target, ∃ detail, chain.call (getStoreStatus U storeId target) = .error (.proof detail)) := by
  constructor
  · intro w hw hne
    have hrun := runs_consult chain.answer (walkOutcomeBounded (E := E) U storeId n).run
    rw [ChainSource.call, ChainSource.consult] at hw
    rw [hw] at hrun
    exact walks_distinct (walkOutcomeBounded_runs hrun) (consult_answers _ _) hne
  · intro ds h hd
    obtain ⟨detail, hw⟩ := revisit_error (n := maxLineageGenerations) h hd
    refine ⟨revisit_error h hd, ?_, ?_⟩
    · intro α g
      rw [g.readsOff.call]
      exact ⟨detail, congrArg (fun r => Except.bind r (g.view P storeId)) hw⟩
    · intro target
      exact ⟨detail, status_error target hw⟩

end Call

end DigStore.Distinct
