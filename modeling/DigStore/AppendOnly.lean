import DigStore.Agreement
import DigStore.Simulator

namespace DigStore.AppendOnly

open Library.Dialogue Store Walk Getters FailClosed Lineages Agreement

variable {U : Upstream} {P : UrnProtocol} {E : Type} {S S' : ChainSource E} {storeId : Bytes32} {n : Nat}
  {t : List (Reading E)}

/-- The source repeats every spend that these readings were answered with. It is
free about every other coin. -/
def Repeats (S' : ChainSource E) (t : List (Reading E)) : Prop :=
  ∀ coinId s, ⟨.coinSpend coinId, .ok (some s)⟩ ∈ t → S'.coinSpend coinId = .ok (some s)

theorem hops_repeats {d last : Datastore} {ds : List Datastore} (h : Hops U d t ds last) (hS : Repeats S' t) :
    ∀ e ∈ t, S'.answer e.1 = e.2 := by
  induction h with
  | here => simp
  | hop _ _ _ ih =>
      intro e he
      rcases List.mem_cons.mp he with rfl | he
      · exact hS _ _ List.mem_cons_self
      · exact ih (fun coinId s hs => hS coinId s (List.mem_cons_of_mem _ hs)) e he

theorem melted_repeats {roots : List Bytes32} (h : Walks U storeId n t (.ok (.melted roots)))
    (hS : Repeats S' t) : ∀ e ∈ t, S'.answer e.1 = e.2 := by
  cases h with
  | follows hs hd hid hops hstop =>
      cases hstop with
      | melted s h hs' hm =>
          intro e he
          rcases List.mem_cons.mp he with rfl | he
          · exact hS _ _ List.mem_cons_self
          · rcases List.mem_append.mp he with he | he
            · refine hops_repeats hops (fun coinId s hs => hS coinId s ?_) e he
              exact List.mem_cons_of_mem _ (List.mem_append_left _ hs)
            · cases List.mem_singleton.mp he
              exact hS _ _ (by simp)

theorem live_repeats {roots : List Bytes32} {tip : Datastore} (h : Walks U storeId n t (.ok (.live roots tip)))
    (hS : Repeats S' t) :
    (∃ ds, Generations U S' storeId ds ∧ ds.length ≤ n ∧ roots = ds.map Datastore.root) ∧
      (Unspent U S' tip → ∀ e ∈ t, S'.answer e.1 = e.2) := by
  cases h with
  | @follows s d t₁ t₂ ds last r hs hd hid hops hstop =>
      cases hstop with
      | live h =>
          have hq : S'.coinSpend storeId = .ok (some s) := hS _ _ List.mem_cons_self
          have ht₁ : ∀ e ∈ t₁, S'.answer e.1 = e.2 := hops_repeats hops (fun coinId s hs =>
            hS coinId s (List.mem_cons_of_mem _ (List.mem_append_left _ hs)))
          obtain ⟨hg, -⟩ := hops_launched hops hs hd hid hq ht₁
          refine ⟨⟨ds, hg, by simpa using h, rfl⟩, ?_⟩
          intro hu e he
          rcases List.mem_cons.mp he with rfl | he
          · exact hq
          · rcases List.mem_append.mp he with he | he
            · exact ht₁ e he
            · cases List.mem_singleton.mp he
              exact hu

inductive Extends (roots : List Bytes32) : DigStoreResult WalkOutcome → Prop
  | failed (detail) : Extends roots (.error (.proof detail))
  | live {roots'} (tip) (h : roots <+: roots') : Extends roots (.ok (.live roots' tip))
  | melted {roots'} (h : roots <+: roots') : Extends roots (.ok (.melted roots'))

theorem means_extends {ds : List Datastore} {r : DigStoreResult WalkOutcome}
    (hr : Means U S' storeId n r) (h : Generations U S' storeId ds) :
    Extends (ds.map Datastore.root) r := by
  cases hr with
  | notFound h' => exact absurd h' h.present
  | live h' hcap => exact .live _ ((h'.isPrefix h'.last_eq h'.unspent.final h).map Datastore.root)
  | melted h' hcap => exact .melted ((h'.isPrefix h'.last_eq h'.melts.final h).map Datastore.root)
  | launcher detail | faulty detail | cap detail => exact .failed detail

/-- The second source gives the answer of the first at every coin id for which
the walk over the first was answered with a spend. -/
def SameSpends [ToString E] (U : Upstream) (storeId : Bytes32) (n : Nat) (S S' : ChainSource E) : Prop :=
  ∀ coinId s, ⟨.coinSpend coinId, .ok (some s)⟩ ∈ (S.consult (walkOutcomeBounded U storeId n)).trace →
    S'.coinSpend coinId = S.coinSpend coinId

structure Continues (U : Upstream) (S' : ChainSource E) (w : WalkOutcome)
    (r : DigStoreResult WalkOutcome) : Prop where
  melted : ∀ roots, w = .melted roots → r = .ok w
  unspent : ∀ roots tip, w = .live roots tip → S'.coinSpend (U.coinId tip.coin) = .ok none → r = .ok w
  extended : ∀ roots tip, w = .live roots tip → Extends roots r

theorem Continues.roots {w w' : WalkOutcome} (h : Continues U S' w (.ok w')) : rootsOf w <+: rootsOf w' := by
  cases w with
  | notFound => exact List.nil_prefix
  | melted roots =>
      cases h.melted roots rfl
      exact List.prefix_refl _
  | live roots tip =>
      cases h.extended roots tip rfl with
      | live tip' hr => exact hr
      | melted hr => exact hr

variable [ToString E]

theorem SameSpends.repeats (h : SameSpends U storeId n S S') :
    Repeats S' (S.consult (walkOutcomeBounded U storeId n)).trace := by
  intro coinId s hs
  rw [h coinId s hs]
  exact consult_answers S.answer (walkOutcomeBounded U storeId n).run _ hs

theorem walk_continues {w : WalkOutcome} (h : SameSpends U storeId n S S')
    (hw : S.call (walkOutcomeBounded U storeId n) = .ok w) :
    Continues U S' w (S'.call (walkOutcomeBounded U storeId n)) := by
  have hrun := runs_consult S.answer (walkOutcomeBounded U storeId n).run
  have hrep := h.repeats
  rw [ChainSource.call, ChainSource.consult] at hw
  rw [ChainSource.consult] at hrep
  rw [hw] at hrun
  have hwalk := walkOutcomeBounded_runs hrun
  refine ⟨?_, ?_, ?_⟩
  · intro roots hr
    subst hr
    have hc := hrun.consult_eq (melted_repeats hwalk hrep)
    exact congrArg Outcome.result hc
  · intro roots tip hr hu
    subst hr
    have hc := hrun.consult_eq ((live_repeats hwalk hrep).2 hu)
    exact congrArg Outcome.result hc
  · intro roots tip hr
    subst hr
    obtain ⟨⟨ds, hds, -, rfl⟩, -⟩ := live_repeats hwalk hrep
    exact means_extends (call_means S' storeId n) hds

theorem history_call {history : RootHistory} (h : S.call (getRootHistory U storeId) = .ok history) :
    ∃ w, S.call (walkOutcome U storeId) = .ok w ∧ history.roots = rootsOf w := by
  obtain ⟨w, hw, hv⟩ := history_readsOff.call_ok h
  refine ⟨w, hw, ?_⟩
  cases w <;> cases hv <;> rfl

theorem latestRoot_call {root : Bytes32} (h : S.call (getLatestRoot U storeId) = .ok root) :
    ∃ w, S.call (walkOutcome U storeId) = .ok w ∧ (rootsOf w).getLast? = some root := by
  obtain ⟨w, hw, hv⟩ := latestRoot_readsOff.call_ok h
  refine ⟨w, hw, ?_⟩
  cases w with
  | notFound | melted roots => cases hv
  | live roots tip =>
      cases hv
      exact live_roots hw

/-- What becomes of the getters: first what they tell of the walks over the two
sources, then how their own answers compare. -/
structure GettersContinue (U : Upstream) (P : UrnProtocol) (storeId : Bytes32) (S S' : ChainSource E) : Prop where
  told : ∀ w, S.call (walkOutcome U storeId) = .ok w → w ≠ .notFound →
    S.call (getRootHistory U storeId) = .ok ⟨rootsOf w⟩
  tip_told : ∀ roots tip, S.call (walkOutcome U storeId) = .ok (.live roots tip) →
    S.call (getLatestRoot U storeId) = .ok tip.root ∧ roots[roots.length - 1]? = some tip.root
  closed : ∀ roots, S.call (walkOutcome U storeId) = .ok (.melted roots) →
    ∀ {α : Type} (g : LineageGetter α), S'.call (g.call U P storeId) = S.call (g.call U P storeId)
  unspent : ∀ roots tip, S.call (walkOutcome U storeId) = .ok (.live roots tip) →
    S'.coinSpend (U.coinId tip.coin) = .ok none →
    ∀ {α : Type} (g : LineageGetter α), S'.call (g.call U P storeId) = S.call (g.call U P storeId)
  continued : ∀ roots tip, S.call (walkOutcome U storeId) = .ok (.live roots tip) →
    (∃ detail, ∀ {α : Type} (g : LineageGetter α), S'.call (g.call U P storeId) = .error (.proof detail)) ∨
      ∃ w, S'.call (walkOutcome U storeId) = .ok w ∧ S'.call (getRootHistory U storeId) = .ok ⟨rootsOf w⟩ ∧
        roots <+: rootsOf w ∧ (rootsOf w)[roots.length - 1]? = some tip.root
  history : ∀ history history', S.call (getRootHistory U storeId) = .ok history →
    S'.call (getRootHistory U storeId) = .ok history' → history.roots <+: history'.roots
  latest : ∀ root history history', S.call (getLatestRoot U storeId) = .ok root →
    S.call (getRootHistory U storeId) = .ok history → S'.call (getRootHistory U storeId) = .ok history' →
    history'.roots[history.generationCount - 1]? = some root
  count : ∀ target target' st st', S.call (getStoreStatus U storeId target) = .ok st →
    S'.call (getStoreStatus U storeId target') = .ok st' → st.generationCount ≤ st'.generationCount
  melted : ∀ target target' st, S.call (getStoreStatus U storeId target) = .ok st → st.status = .melted →
    S'.call (getStoreStatus U storeId target') = .ok st ∧
      S'.call (getRootHistory U storeId) = S.call (getRootHistory U storeId)

theorem walk_roots_grow {w w' : WalkOutcome} (h : SameSpends U storeId n S S')
    (hw : S.call (walkOutcomeBounded U storeId n) = .ok w)
    (hw' : S'.call (walkOutcomeBounded U storeId n) = .ok w') : rootsOf w <+: rootsOf w' := by
  have hc := walk_continues h hw
  rw [hw'] at hc
  exact hc.roots

theorem history_told {w : WalkOutcome} (hw : S.call (walkOutcome U storeId) = .ok w) (hne : w ≠ .notFound) :
    S.call (getRootHistory U storeId) = .ok ⟨rootsOf w⟩ := by
  rw [history_readsOff.call, hw]
  cases w with
  | notFound => exact absurd rfl hne
  | melted roots | live roots tip => rfl

theorem latestRoot_told {roots : List Bytes32} {tip : Datastore}
    (hw : S.call (walkOutcome U storeId) = .ok (.live roots tip)) :
    S.call (getLatestRoot U storeId) = .ok tip.root ∧ roots[roots.length - 1]? = some tip.root := by
  rw [← List.getLast?_eq_getElem?]
  refine ⟨?_, live_roots hw⟩
  rw [latestRoot_readsOff.call, hw]
  rfl

theorem same_call {r : DigStoreResult WalkOutcome} (hw : S.call (walkOutcome U storeId) = r)
    (hw' : S'.call (walkOutcome U storeId) = r) {α : Type} (g : LineageGetter α) :
    S'.call (g.call U P storeId) = S.call (g.call U P storeId) := by
  rw [g.readsOff.call, g.readsOff.call, hw, hw']

theorem prefix_getElem {l l' : List Bytes32} {i : ℕ} {a : Bytes32} (h : l <+: l') (hi : l[i]? = some a) :
    l'[i]? = some a := by
  obtain ⟨u, rfl⟩ := h
  rw [List.getElem?_append_left (List.getElem?_eq_some_iff.mp hi).1]
  exact hi

theorem live_continued {roots : List Bytes32} {tip : Datastore} (h : SameSpends U storeId maxLineageGenerations S S')
    (hw : S.call (walkOutcome U storeId) = .ok (.live roots tip)) :
    (∃ detail, ∀ {α : Type} (g : LineageGetter α), S'.call (g.call U P storeId) = .error (.proof detail)) ∨
      ∃ w, S'.call (walkOutcome U storeId) = .ok w ∧ S'.call (getRootHistory U storeId) = .ok ⟨rootsOf w⟩ ∧
        roots <+: rootsOf w ∧ (rootsOf w)[roots.length - 1]? = some tip.root := by
  obtain ⟨-, hlast⟩ := latestRoot_told hw
  have hext : Extends roots (S'.call (walkOutcome U storeId)) := (walk_continues h hw).extended _ _ rfl
  generalize hr : S'.call (walkOutcome U storeId) = r at hext
  cases hext with
  | failed detail =>
      refine .inl ⟨detail, fun g => ?_⟩
      rw [g.readsOff.call, hr]
      rfl
  | live tip' hp => exact .inr ⟨_, rfl, history_told hr (by simp), hp, prefix_getElem hp hlast⟩
  | melted hp => exact .inr ⟨_, rfl, history_told hr (by simp), hp, prefix_getElem hp hlast⟩

theorem getters_continue (h : SameSpends U storeId maxLineageGenerations S S') :
    GettersContinue U P storeId S S' := by
  have hhistory (history history') (hh : S.call (getRootHistory U storeId) = .ok history)
      (hh' : S'.call (getRootHistory U storeId) = .ok history') : history.roots <+: history'.roots := by
    obtain ⟨w, hw, hr⟩ := history_call hh
    obtain ⟨w', hw', hr'⟩ := history_call hh'
    rw [hr, hr']
    exact walk_roots_grow h hw hw'
  refine ⟨fun _ => history_told, fun _ _ => latestRoot_told, ?_, ?_, fun _ _ => live_continued h, hhistory, ?_, ?_, ?_⟩
  · intro roots hw α g
    exact same_call hw ((walk_continues h hw).melted _ rfl) g
  · intro roots tip hw hu α g
    exact same_call hw ((walk_continues h hw).unspent _ _ rfl hu) g
  · intro root history history' hroot hh hh'
    obtain ⟨w, hw, hlast⟩ := latestRoot_call hroot
    obtain ⟨w', hw', hr⟩ := history_call hh
    cases hw.symm.trans hw'
    rw [← hr, List.getLast?_eq_getElem?] at hlast
    exact prefix_getElem (hhistory history history' hh hh') hlast
  · intro target target' st st' hst hst'
    obtain ⟨w, hw, -, hc⟩ := status_walk hst
    obtain ⟨w', hw', -, hc'⟩ := status_walk hst'
    rw [hc, hc']
    exact (walk_roots_grow h hw hw').length_le
  · intro target target' st hst hk
    cases status_told.mp hst with
    | notFound | live => cases hk
    | @melted roots hw =>
        have hw' : S'.call (walkOutcome U storeId) = .ok (.melted roots) := (walk_continues h hw).melted _ rfl
        refine ⟨status_told.mpr (.melted hw'), ?_⟩
        rw [history_readsOff.call, history_readsOff.call, hw, hw']

/-- A lineage once read is only ever continued, and the spends of other coins
have no part in it. -/
theorem history_append_only (U : Upstream) (P : UrnProtocol) (S S' : ChainSource E) (storeId : Bytes32) (n : Nat) :
    (SameSpends U storeId n S S' → ∀ w, S.call (walkOutcomeBounded U storeId n) = .ok w →
      Continues U S' w (S'.call (walkOutcomeBounded U storeId n))) ∧
    (SameSpends U storeId maxLineageGenerations S S' → GettersContinue U P storeId S S') :=
  ⟨fun h _ hw => walk_continues h hw, getters_continue⟩

theorem sameSpends_grows (id : Bytes32) (n : Nat) (spends more : List CoinSpend) (records : List CoinRecord) :
    SameSpends Simulator.upstream id n (Simulator.chain spends records)
      (Simulator.chain (spends ++ more) records) := by
  intro coinId s hs
  have ha : (Simulator.chain spends records).coinSpend coinId = .ok (some s) :=
    consult_answers _ (walkOutcomeBounded Simulator.upstream id n).run _ hs
  rw [ha]
  exact Simulator.chain_grows ha

theorem history_append_only_updated :
    Continues Simulator.upstream (Simulator.chain [Simulator.launch, Simulator.update] [])
        (.live [Bytes32.fill 0x11] Simulator.eve)
        ((Simulator.chain [Simulator.launch, Simulator.update] []).call
          (walkOutcomeBounded Simulator.upstream Simulator.storeId 2)) ∧
      GettersContinue Simulator.upstream Simulator.protocol Simulator.storeId (Simulator.chain [Simulator.launch] [])
        (Simulator.chain [Simulator.launch, Simulator.update] []) := by
  have hlive : LiveAt Simulator.upstream (Simulator.chain [Simulator.launch] []) Simulator.storeId
      [Simulator.eve] Simulator.eve :=
    ⟨⟨⟨_, rfl, Simulator.launch, rfl, rfl, rfl, rfl⟩, List.isChain_singleton _⟩, rfl, rfl⟩
  have h := history_append_only Simulator.upstream Simulator.protocol (Simulator.chain [Simulator.launch] [])
    (Simulator.chain [Simulator.launch, Simulator.update] []) Simulator.storeId 2
  exact ⟨h.1 (sameSpends_grows _ 2 [Simulator.launch] [Simulator.update] []) _ (hlive.call (by decide)),
    h.2 (sameSpends_grows _ _ [Simulator.launch] [Simulator.update] [])⟩

end DigStore.AppendOnly
