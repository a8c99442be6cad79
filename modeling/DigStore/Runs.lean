import DigStore.Progress
import DigStore.Registry
import Mathlib.Order.Monotone.Basic

namespace DigStore.Runs

open Library.Dialogue Library.Journal Store Walk Getters Lineages Agreement Lifecycle World Publishers Registry
  Snapshot Progress

variable {U : Upstream} {B : SpendBuilders} {outputs : CoinSpend → List Coin} {P E α : Type} [DecidableEq P]
  [ToString E] {node : Node U E} {w w' : State U P} {storeId : Bytes32} {log log' : StoreLog} {target : UInt32}

theorem step_keeps (h : Step B outputs node w w') {id : Bytes32} {s : CoinSpend}
    (hs : w.ledger.spendOf id = some s) : w'.ledger.spendOf id = some s := by
  cases h with
  | create _ _ _ _ ha => exact Ledger.accept_keeps (h := ha) hs
  | modify _ _ _ ha | melt _ _ _ ha => exact Ledger.accept_keeps (h := ha) hs
  | other _ ha => exact Ledger.accept_keeps (h := ha) hs
  | read | refused => exact hs

theorem steps_keep (h : Relation.ReflTransGen (Step B outputs node) w w') {id : Bytes32} {s : CoinSpend}
    (hs : w.ledger.spendOf id = some s) : w'.ledger.spendOf id = some s := by
  induction h with
  | refl => exact hs
  | tail _ hstep ih => exact step_keeps hstep ih

theorem reachable_later (hw : Reachable B outputs node w) (h : Relation.ReflTransGen (Step B outputs node) w w') :
    Reachable B outputs node w' := by
  obtain ⟨L, hfirst⟩ := hw
  exact ⟨L, hfirst.trans h⟩

theorem steps_view (h : Relation.ReflTransGen (Step B outputs node) w w') :
    View (node.source w.ledger) (node.source w'.ledger) := by
  intro id
  refine ⟨_, node.spend_eq _ _, ?_⟩
  intro s hs
  exact source_spend.mpr (steps_keep h hs)

omit [ToString E] in
theorem nodes_view (node node' : Node U E) (L : Ledger U) : View (node.source L) (node'.source L) := by
  intro id
  refine ⟨_, node.spend_eq _ _, ?_⟩
  intro s hs
  rw [node'.spend_eq, hs]

theorem nodes_call (node node' : Node U E) (L : Ledger U) (storeId : Bytes32) :
    (node.source L).call (walkOutcome U storeId) = (node'.source L).call (walkOutcome U storeId) :=
  stage_injective (le_antisymm ((nodes_view node node' L).stage_le storeId maxLineageGenerations)
    ((nodes_view node' node L).stage_le storeId maxLineageGenerations))

theorem step_node (node' : Node U E) (h : Step B outputs node w w') : Step B outputs node' w w' := by
  have hcoin {w : State U P} {coin : Coin} (hs : StoreCoin node' w coin) : StoreCoin node w coin := by
    obtain ⟨id, ds, d, hl, hg, hd, hid⟩ := hs
    exact ⟨id, ds, d, hl, (nodes_view node' node _).generations hg, hd, hid⟩
  cases h with
  | create hb hc hp ho ha hf => exact .create hb hc hp (fun hs => ho (hcoin hs)) ha hf
  | read p hl hr =>
      rw [tip_readsOff.call, nodes_call node node', ← tip_readsOff.call] at hr
      exact .read p hl hr
  | modify p ht hb ha hf => exact .modify p ht hb ha hf
  | melt p ht hb ha hf => exact .melt p ht hb ha hf
  | other ho ha hf => exact .other (fun s hs hstore => ho s hs (hcoin hstore)) ha hf
  | refused ha => exact .refused ha

theorem reachable_node (node' : Node U E) (h : Reachable B outputs node w) : Reachable B outputs node' w := by
  obtain ⟨L, hsteps⟩ := h
  exact ⟨L, Relation.ReflTransGen.mono (fun _ _ => step_node node') _ _ hsteps⟩

/-- A run of the world, from any state that publishers have brought about. From one
moment to the next any number of steps is taken. -/
structure Run (B : SpendBuilders) (outputs : CoinSpend → List Coin) (node : Node U E) (P : Type)
    [DecidableEq P] where
  world : ℕ → State U P
  start : Reachable B outputs node (world 0)
  moves : ∀ i, Relation.ReflTransGen (Step B outputs node) (world i) (world (i + 1))

theorem Run.later (r : Run B outputs node P) {i j : ℕ} (h : i ≤ j) :
    Relation.ReflTransGen (Step B outputs node) (r.world i) (r.world j) :=
  Nat.rel_of_forall_rel_succ_of_le (Relation.ReflTransGen (Step B outputs node)) r.moves h

theorem Run.reachable (r : Run B outputs node P) (i : ℕ) : Reachable B outputs node (r.world i) :=
  reachable_later r.start (r.later (Nat.zero_le i))

def Run.chain (r : Run B outputs node P) : Evolution ℕ E where
  spends i id := (r.world i).ledger.spendOf id
  records i := (node.source (r.world i).ledger).coinRecord
  peak i := (node.source (r.world i).ledger).peakHeight
  grows h := steps_keep (r.later h)

theorem Run.chain_at (r : Run B outputs node P) (i : ℕ) : r.chain.at i = node.source (r.world i).ledger := by
  have hspend : (node.source (r.world i).ledger).coinSpend = fun id => .ok ((r.world i).ledger.spendOf id) := by
    funext id
    exact node.spend_eq _ _
  rw [Evolution.at]
  simp only [Run.chain]
  rw [← hspend]

def outcomeOf (log : StoreLog) (tip : Datastore) : WalkOutcome :=
  if log.melted then .melted log.roots else .live log.roots tip

structure Tip (log : StoreLog) (storeId : Bytes32) (tip : Datastore) : Prop where
  root : log.roots.getLast? = some tip.root
  info : tip.info = log.info storeId tip.root

theorem holds_walk (hB : MerkleContract U B outputs) (hw : Reachable B outputs node w)
    (hlog : w.logs storeId = some log) (hcap : log.roots.length ≤ maxLineageGenerations) :
    ∃ tip, Tip log storeId tip ∧
      (node.source w.ledger).call (walkOutcome U storeId) = .ok (outcomeOf log tip) := by
  obtain ⟨gens, hi⟩ := reachable_inv hB hw
  obtain ⟨last, hh⟩ := hi.holds storeId log hlog
  refine ⟨last, ⟨?_, hh.info last hh.last_mem⟩, hh.walk hcap⟩
  rw [← hh.roots, List.getLast?_map, hh.last_eq]
  rfl

/-- A call that is spread over a run of publishers is a call at one moment of it,
and tells what had been accepted of the store by then. -/
theorem getters_linearize (hB : MerkleContract U B outputs) (r : Run B outputs node P) (τ : ℕ →o ℕ)
    (urns : UrnProtocol) (storeId : Bytes32) (g : LineageGetter α) :
    ∃ k < (r.chain.during τ (g.call U urns storeId)).trace.length,
      (r.chain.during τ (g.call U urns storeId)).result =
        (node.source (r.world (τ k)).ledger).call (g.call U urns storeId) ∧
      ∀ log, (r.world (τ k)).logs storeId = some log → log.roots.length ≤ maxLineageGenerations →
        ∃ tip, Tip log storeId tip ∧
          (r.chain.during τ (g.call U urns storeId)).result = g.view urns storeId (outcomeOf log tip) := by
  obtain ⟨last, hlast, hr⟩ := during_last r.chain τ g.readsOff
  rw [r.chain_at] at hr
  refine ⟨last, by omega, hr, ?_⟩
  intro log hlog hcap
  obtain ⟨tip, htip, hwalk⟩ := holds_walk hB (r.reachable _) hlog hcap
  exact ⟨tip, htip, hr.trans (call_view g hwalk)⟩

structure TellsLog (log : StoreLog) (st : StoreStatus) : Prop where
  status : st.status = if log.melted then .melted else .live
  generation_count : st.generationCount = log.roots.length
  live_root : st.liveRoot = if log.melted then none else log.roots.getLast?.map toHex
  owner : st.ownerPuzzleHash = if log.melted then none else some (toHex log.ownerPuzzleHash)
  program_hash : st.programHash = if log.melted then none else log.metadata.programHash.map toHex

omit [DecidableEq P] [ToString E] in
theorem tells_log {st : StoreStatus} {tip : Datastore} (h : Tells U storeId st (outcomeOf log tip))
    (htip : Tip log storeId tip) : TellsLog log st := by
  unfold outcomeOf at h
  cases hm : log.melted with
  | true =>
      rw [hm, if_pos rfl] at h
      cases h with
      | melted h =>
          subst h
          constructor <;> simp [hm, closedStatus]
  | false =>
      rw [hm, if_neg Bool.false_ne_true] at h
      cases h with
      | live hk h =>
          constructor
          · simp [hk, hm]
          · exact h.generation_count
          · simp [h.live_root, hm, htip.root]
          · simp [h.owner, hm, htip.info, StoreLog.info]
          · simp [h.program_hash, hm, htip.info, StoreLog.info]

/-- At the moment `j` of a run the status is what a walk finds, and what the log of
the store says if it has one. -/
structure TellsMoment (r : Run B outputs node P) (storeId : Bytes32) (st : StoreStatus) (j : ℕ) : Prop where
  walk : ∃ o, (node.source (r.world j).ledger).call (walkOutcome U storeId) = .ok o ∧ Tells U storeId st o
  log : ∀ log, (r.world j).logs storeId = some log → log.roots.length ≤ maxLineageGenerations → TellsLog log st

/-- A status that is spread over a run tells of the store at one moment of it, a live
one if a record of the tip confirms it. -/
theorem status_linearizes (hB : MerkleContract U B outputs) (r : Run B outputs node P) (τ : ℕ →o ℕ)
    (hrec : r.chain.RecordsAgree U) {st : StoreStatus}
    (hst : (r.chain.during τ (getStoreStatus U storeId target)).result = .ok st)
    (hv : st.status = .live → st.verified = true) :
    ∃ i < (r.chain.during τ (getStoreStatus U storeId target)).trace.length, TellsMoment r storeId st (τ i) := by
  obtain ⟨i, hi, o, ho, htells⟩ := status_moment hrec hst hv
  rw [r.chain_at] at ho
  refine ⟨i, hi, ⟨o, ho, htells⟩, ?_⟩
  intro log hlog hcap
  obtain ⟨tip, htip, hwalk⟩ := holds_walk hB (r.reachable _) hlog hcap
  cases ho.symm.trans hwalk
  exact tells_log htells htip

theorem unchanged_call (hB : MerkleContract U B outputs) (hw : Reachable B outputs node w)
    (hs : Relation.ReflTransGen (Step B outputs node) w w') (hlog : w.logs storeId = some log)
    (hlog' : w'.logs storeId = some log) :
    (node.source w'.ledger).call (walkOutcome U storeId) = (node.source w.ledger).call (walkOutcome U storeId) := by
  obtain ⟨gens, hi⟩ := reachable_inv hB hw
  obtain ⟨gens', hi'⟩ := reachable_inv hB (reachable_later hw hs)
  obtain ⟨last, hh⟩ := hi.holds storeId log hlog
  obtain ⟨last', hh'⟩ := hi'.holds storeId log hlog'
  match hr : (node.source w.ledger).call (walkOutcome U storeId) with
  | .ok .notFound => exact absurd (notFound_iff.mp hr) hh.present
  | .ok (.melted roots) => exact (steps_view hs).call_settled hr (by simp) (by simp)
  | .error error => exact (steps_view hs).call_settled hr (by simp) (by simp)
  | .ok (.live roots tip) =>
      obtain ⟨ds, hlive, hcap, rfl⟩ := live_iff.mp hr
      obtain ⟨rfl, rfl⟩ := hh.eq_generations hlive
      obtain ⟨-, hopen⟩ := hh.current hh.last_mem (source_unspent.mp hlive.unspent)
      -- The generations are still there, and they are as many as before.
      have hp := hh'.isPrefix hh'.last_eq hh'.final ((steps_view hs).generations hh.toGenerations)
      have hlen : (gens storeId).length = (gens' storeId).length := by
        rw [← List.length_map Datastore.root, hh.roots, ← hh'.roots, List.length_map]
      have hds := hp.eq_of_length hlen
      have hlast : last = last' := Option.some.inj (hh.last_eq.symm.trans (hds ▸ hh'.last_eq))
      rw [hds, hlast]
      have hlive' : LiveAt U (node.source w'.ledger) storeId (gens' storeId) last' :=
        ⟨hh'.toGenerations, hh'.last_eq, hh'.unspent hopen⟩
      exact hlive'.call (by omega)

omit [DecidableEq P] [ToString E] in
theorem history_view (urns : UrnProtocol) (storeId : Bytes32) (log : StoreLog) (tip : Datastore) :
    LineageGetter.rootHistory.view urns storeId (outcomeOf log tip) = .ok ⟨log.roots⟩ := by
  unfold outcomeOf
  cases log.melted <;> rfl

theorem tip_view (urns : UrnProtocol) (storeId : Bytes32) (log : StoreLog) (tip : Datastore) :
    (∃ d, LineageGetter.singletonTip.view urns storeId (outcomeOf log tip) = .ok d) ↔ log.melted = false := by
  unfold outcomeOf
  cases hm : log.melted with
  | true => simp [LineageGetter.view, tipView, lineageOf, liveTip, Except.bind]
  | false => simp [LineageGetter.view, tipView, lineageOf, liveTip, Except.bind]

theorem log_eq (h : record log ≤ record log') (hr : log'.roots = log.roots)
    (hm : log'.melted = false ↔ log.melted = false) : log' = log := by
  obtain ⟨hmetadata, howner⟩ := Prod.ext_iff.mp h.header
  cases log
  cases log'
  simp_all [record]

structure SameAnswers (U : Upstream) (urns : UrnProtocol) (storeId : Bytes32) (S S' : ChainSource E) : Prop where
  call : ∀ {α : Type} (g : LineageGetter α), S'.call (g.call U urns storeId) = S.call (g.call U urns storeId)

/-- Every getter of a store goes on answering the same, whatever happens to the
other stores, for just as long as nothing is accepted of this one. -/
theorem answers_change_with_log (hB : MerkleContract U B outputs) (urns : UrnProtocol)
    (hw : Reachable B outputs node w) (hs : Relation.ReflTransGen (Step B outputs node) w w')
    (hlog : w.logs storeId = some log) (hlog' : w'.logs storeId = some log')
    (hcap : log'.roots.length ≤ maxLineageGenerations) :
    SameAnswers U urns storeId (node.source w.ledger) (node.source w'.ledger) ↔ log' = log := by
  constructor
  · intro h
    obtain ⟨_, hlog₂, hle⟩ := logs_grow hB hw hs hlog
    cases hlog'.symm.trans hlog₂
    have hcap₀ : log.roots.length ≤ maxLineageGenerations := hle.items.length_le.trans hcap
    obtain ⟨tip, -, hwalk⟩ := holds_walk hB hw hlog hcap₀
    obtain ⟨tip', -, hwalk'⟩ := holds_walk hB (reachable_later hw hs) hlog' hcap
    have hhistory := h.call .rootHistory
    have htip := h.call .singletonTip
    rw [call_view .rootHistory hwalk, call_view .rootHistory hwalk', history_view, history_view] at hhistory
    rw [call_view .singletonTip hwalk, call_view .singletonTip hwalk'] at htip
    apply log_eq hle
    · exact congrArg RootHistory.roots (Except.ok.inj hhistory)
    · rw [← tip_view urns storeId log' tip', ← tip_view urns storeId log tip, htip]
  · rintro rfl
    refine ⟨fun g => ?_⟩
    rw [g.readsOff.call, g.readsOff.call, unchanged_call hB hw hs hlog hlog']

theorem tipMetadata_call {S : ChainSource E} {field : DigDataStoreMetadata → α} {a : α}
    (h : S.call (tipMetadata U field storeId) = .ok a) :
    ∃ tip, S.call (getStoreSingletonTip U storeId) = .ok tip ∧ field tip.info.metadata = a := by
  obtain ⟨o, ho, hv⟩ := (tipMetadata_readsOff field).call_ok h
  cases htip : tipView storeId o with
  | error error =>
      rw [htip] at hv
      cases hv
  | ok tip =>
      rw [htip] at hv
      refine ⟨tip, ?_, Except.ok.inj hv⟩
      rw [tip_readsOff.call, ho]
      exact htip

structure CreationStays (U : Upstream) (storeId : Bytes32) (S S' : ChainSource E) : Prop where
  info : ∀ tip tip', S.call (getStoreSingletonTip U storeId) = .ok tip →
    S'.call (getStoreSingletonTip U storeId) = .ok tip' →
    tip'.info = { tip.info with metadata := { tip.info.metadata with rootHash := tip'.root } }
  label : ∀ a a', S.call (getStoreLabel U storeId) = .ok a → S'.call (getStoreLabel U storeId) = .ok a' → a' = a
  description : ∀ a a', S.call (getStoreDescription U storeId) = .ok a →
    S'.call (getStoreDescription U storeId) = .ok a' → a' = a
  sizeBucket : ∀ a a', S.call (getStoreSizeBucket U storeId) = .ok a →
    S'.call (getStoreSizeBucket U storeId) = .ok a' → a' = a
  programHash : ∀ a a', S.call (getStoreProgramHash U storeId) = .ok a →
    S'.call (getStoreProgramHash U storeId) = .ok a' → a' = a
  owner : ∀ target target' st st', S.call (getStoreStatus U storeId target) = .ok st →
    S'.call (getStoreStatus U storeId target') = .ok st' → st.status = .live → st'.status = .live →
    st'.ownerPuzzleHash = st.ownerPuzzleHash ∧ st'.programHash = st.programHash

theorem status_tip {S : ChainSource E} {st : StoreStatus} (h : S.call (getStoreStatus U storeId target) = .ok st)
    (hk : st.status = .live) :
    ∃ tip, S.call (getStoreSingletonTip U storeId) = .ok tip ∧
      st.ownerPuzzleHash = some (toHex tip.info.ownerPuzzleHash) ∧
      st.programHash = tip.info.metadata.programHash.map toHex := by
  cases status_told.mp h with
  | notFound | melted => cases hk
  | @live roots tip _ _ hw =>
      refine ⟨tip, ?_, rfl, rfl⟩
      rw [tip_readsOff.call, hw]
      rfl

/-- Publishing changes the root of a store and nothing else that its readers see. -/
theorem creation_stays (hB : MerkleContract U B outputs) (hw : Reachable B outputs node w)
    (hs : Relation.ReflTransGen (Step B outputs node) w w') (hl : (w.logs storeId).isSome) :
    CreationStays U storeId (node.source w.ledger) (node.source w'.ledger) := by
  obtain ⟨log, hlog⟩ := Option.isSome_iff_exists.mp hl
  obtain ⟨log', hlog', hle⟩ := logs_grow hB hw hs hlog
  obtain ⟨gens, hi⟩ := reachable_inv hB hw
  obtain ⟨gens', hi'⟩ := reachable_inv hB (reachable_later hw hs)
  obtain ⟨last, hh⟩ := hi.holds storeId log hlog
  obtain ⟨last', hh'⟩ := hi'.holds storeId log' hlog'
  obtain ⟨hmetadata, howner⟩ := Prod.ext_iff.mp hle.header
  have hinfo (tip tip') (h : (node.source w.ledger).call (getStoreSingletonTip U storeId) = .ok tip)
      (h' : (node.source w'.ledger).call (getStoreSingletonTip U storeId) = .ok tip') :
      tip'.info = { tip.info with metadata := { tip.info.metadata with rootHash := tip'.root } } := by
    obtain ⟨rfl, -⟩ := hh.tip_eq h
    obtain ⟨rfl, -⟩ := hh'.tip_eq h'
    rw [hh.info tip hh.last_mem, hh'.info tip' hh'.last_mem]
    simp only [StoreLog.info]
    rw [show log'.metadata = log.metadata from hmetadata, show log'.ownerPuzzleHash = log.ownerPuzzleHash from howner]
  -- Each of the four getters reads a field that the root has no part in.
  have hfield {β : Type} (field : DigDataStoreMetadata → β)
      (hroot : ∀ metadata root, field { metadata with rootHash := root } = field metadata) (a a')
      (h : (node.source w.ledger).call (tipMetadata U field storeId) = .ok a)
      (h' : (node.source w'.ledger).call (tipMetadata U field storeId) = .ok a') : a' = a := by
    obtain ⟨tip, htip, rfl⟩ := tipMetadata_call h
    obtain ⟨tip', htip', rfl⟩ := tipMetadata_call h'
    rw [hinfo tip tip' htip htip']
    exact hroot _ _
  refine ⟨hinfo, hfield _ fun _ _ => rfl, hfield _ fun _ _ => rfl, hfield _ fun _ _ => rfl,
    hfield _ fun _ _ => rfl, ?_⟩
  intro target target' st st' h h' hk hk'
  obtain ⟨tip, htip, hown, hprogram⟩ := status_tip h hk
  obtain ⟨tip', htip', hown', hprogram'⟩ := status_tip h' hk'
  rw [hown, hown', hprogram, hprogram', hinfo tip tip' htip htip']
  exact ⟨rfl, rfl⟩

def BuiltOn (U : Upstream) (B : SpendBuilders) (tip : Datastore) (spends : List CoinSpend) : Prop :=
  ∃ owner built, built.coinSpends = spends ∧
    ((∃ root, modifyStore U B tip owner root = .ok built) ∨ meltStore U B tip owner = .ok built)

omit [DecidableEq P] [ToString E] in
theorem builtOn_single (hB : MerkleContract U B outputs) {tip : Datastore} {spends : List CoinSpend}
    (ht : Hydrated U tip) (hb : BuiltOn U B tip spends) : ∃ s, spends = [s] ∧ s.coin = tip.coin := by
  obtain ⟨owner, built, rfl, ⟨root, hb⟩ | hb⟩ := hb
  · obtain ⟨s, _, hspends, hcoin, -⟩ := hB.updateRoot _ _ _ _ ht (modifyStore_ok hb)
    exact ⟨s, hspends, hcoin⟩
  · obtain ⟨s, hspends, hcoin, -⟩ := hB.melt _ _ _ ht (meltStore_ok hb)
    exact ⟨s, hspends, hcoin⟩

/-- Of all the updates and melts that any number of publishers build on one tip,
at most one is ever accepted, and from then on the tip is not read again. -/
theorem one_successor (hB : MerkleContract U B outputs) (hw : Reachable B outputs node w) {p : P} {tip : Datastore}
    (ht : tip ∈ w.tips p) {spends : List CoinSpend} (hb : BuiltOn U B tip spends)
    (ha : Ledger.Admits outputs w.ledger spends) (hf : Ledger.Fresh outputs w.ledger spends) {w₁ : State U P}
    (hw₁ : w₁.ledger = w.ledger.accept ha hf)
    (hs : Relation.ReflTransGen (Step B outputs node) w₁ w') :
    (∀ spends', BuiltOn U B tip spends' → ¬Ledger.Admits outputs w'.ledger spends') ∧
      ∀ id, (node.source w'.ledger).call (getStoreSingletonTip U id) ≠ .ok tip := by
  obtain ⟨gens, hi⟩ := reachable_inv hB hw
  have hydrated := hi.hydrated ht
  obtain ⟨s, rfl, hcoin⟩ := builtOn_single hB hydrated hb
  have hspent : w'.ledger.spendOf (U.coinId tip.coin) = some s := by
    apply steps_keep hs
    rw [hw₁, ← hcoin]
    exact Ledger.accept_spent List.mem_cons_self
  constructor
  · intro spends' hb' ha'
    obtain ⟨s', rfl, hcoin'⟩ := builtOn_single hB hydrated hb'
    have hunspent := ha'.unspent s' List.mem_cons_self
    rw [hcoin', hspent] at hunspent
    cases hunspent
  · intro id hr
    obtain ⟨roots, hwalk⟩ := tip_call hr
    obtain ⟨ds, hlive, -⟩ := live_iff.mp hwalk
    have hunspent := source_unspent.mp hlive.unspent
    rw [hspent] at hunspent
    cases hunspent

section Simulated

/-- After the race, a publisher reads the new tip and melts the store. -/
def reread : State Simulator.upstream ℕ :=
  { raced with tips := Function.update raced.tips 0 (Simulator.updated :: raced.tips 0) }

theorem melt_admitted : Ledger.Admits Simulator.outputs reread.ledger [Simulator.melt] := by decide +kernel

theorem melt_fresh : Ledger.Fresh Simulator.outputs reread.ledger [Simulator.melt] := by
  unfold Ledger.Fresh
  decide +kernel

def gone : State Simulator.upstream ℕ where
  ledger := reread.ledger.accept melt_admitted melt_fresh
  tips := reread.tips
  logs := Function.update reread.logs Simulator.storeId ((reread.logs Simulator.storeId).map (·.close))

theorem reread_step : Step Simulator.builders Simulator.outputs simulatorNode raced reread := by
  have hread : (simulatorNode.source raced.ledger).call
      (getStoreSingletonTip Simulator.upstream Simulator.storeId) = .ok Simulator.updated := by decide +kernel
  exact .read 0 rfl hread

theorem melt_built : meltStore Simulator.upstream Simulator.builders Simulator.updated key =
    .ok ⟨[Simulator.melt], none⟩ := by decide +kernel

theorem gone_step : Step Simulator.builders Simulator.outputs simulatorNode reread gone :=
  .melt 0 List.mem_cons_self melt_built melt_admitted melt_fresh

theorem reread_reachable : Reachable Simulator.builders Simulator.outputs simulatorNode reread :=
  reachable_later raced_reachable (.single reread_step)

def recordingNode : Node Simulator.upstream String where
  source L := Simulator.chain L.spends [{ Simulator.tipRecord with
    spentHeight := (L.spendOf (Simulator.coinId Simulator.updated.coin)).map fun _ => 13 }]
  spend_eq _ _ := rfl

/-- The store is melted while it is read. -/
def closing : Run Simulator.builders Simulator.outputs recordingNode ℕ where
  world
    | 0 => reread
    | _ + 1 => gone
  start := reachable_node recordingNode reread_reachable
  moves i := by
    cases i with
    | zero => exact .single (step_node recordingNode gone_step)
    | succ i => exact .refl

/-- The store is updated while it is read. -/
def growing : Run Simulator.builders Simulator.outputs recordingNode ℕ where
  world
    | 0 => readTwice
    | _ + 1 => raced
  start := reachable_node recordingNode readTwice_reachable
  moves i := by
    cases i with
    | zero => exact .single (step_node recordingNode raced_step)
    | succ i => exact .refl

def lateTimes : ℕ →o ℕ where
  toFun i := i - 1
  monotone' := fun i j h => by simp only; omega

def eachTimes : ℕ →o ℕ := OrderHom.id

theorem getters_linearize_closing :
    MerkleContract Simulator.upstream Simulator.builders Simulator.outputs ∧
      ∃ k < (closing.chain.during lateTimes (LineageGetter.rootHistory.call Simulator.upstream
        Simulator.protocol Simulator.storeId)).trace.length,
        (closing.chain.during lateTimes (LineageGetter.rootHistory.call Simulator.upstream
          Simulator.protocol Simulator.storeId)).result =
          (recordingNode.source (closing.world (lateTimes k)).ledger).call
            (LineageGetter.rootHistory.call Simulator.upstream Simulator.protocol Simulator.storeId) ∧
        ∀ log, (closing.world (lateTimes k)).logs Simulator.storeId = some log →
          log.roots.length ≤ maxLineageGenerations →
          ∃ tip, Tip log Simulator.storeId tip ∧
            (closing.chain.during lateTimes (LineageGetter.rootHistory.call Simulator.upstream
              Simulator.protocol Simulator.storeId)).result =
              LineageGetter.rootHistory.view Simulator.protocol Simulator.storeId (outcomeOf log tip) :=
  ⟨simulator_contract, getters_linearize simulator_contract closing lateTimes Simulator.protocol Simulator.storeId
    .rootHistory⟩

theorem recording_recordsAgree (run : Run Simulator.builders Simulator.outputs recordingNode ℕ) :
    run.chain.RecordsAgree Simulator.upstream := by
  intro i id r h
  change (recordingNode.source (run.world i).ledger).coinRecord id = .ok (some r) at h
  have hfind := Except.ok.inj h
  have hid : Simulator.coinId r.coin = id := by simpa using List.find?_some hfind
  have hr := List.mem_singleton.mp (List.mem_of_find?_eq_some hfind)
  subst hid
  subst hr
  change Option.isSome (Option.map _ _) = true ↔ _
  rw [Option.isSome_map]
  rfl

/-- One status begins before an update and tells of the store after it, and one sees
the melt at its last read only. -/
theorem status_linearizes_growing :
    (∃ i < (growing.chain.during eachTimes (getStoreStatus Simulator.upstream Simulator.storeId 32)).trace.length,
      TellsMoment growing Simulator.storeId (liveReport Simulator.upstream Simulator.storeId 32
        [Bytes32.fill 0x11, Bytes32.fill 0x22] Simulator.updated (some Simulator.tipRecord) (some 40))
        (eachTimes i)) ∧
    ∃ i < (closing.chain.during lateTimes (getStoreStatus Simulator.upstream Simulator.storeId 32)).trace.length,
      TellsMoment closing Simulator.storeId (closedStatus .melted Simulator.storeId 2) (lateTimes i) := by
  constructor
  · apply status_linearizes simulator_contract growing eachTimes (recording_recordsAgree growing)
    · decide +kernel
    · intro _
      decide
  · apply status_linearizes simulator_contract closing lateTimes (recording_recordsAgree closing)
    · decide +kernel
    · intro h
      cases h

def otherFunding : CoinSpend := Simulator.fund ⟨Bytes32.fill 0xEE, Simulator.owner, 100⟩ Simulator.owner

def otherLaunch : CoinSpend := ⟨⟨Bytes32.fill 100, Simulator.owner, 101⟩, [], [0x55, 7]⟩

def otherEve : Datastore where
  coin := ⟨Bytes32.fill 101, Simulator.owner, 102⟩
  proof := .eve (Bytes32.fill 100) 101
  info := ⟨Bytes32.fill 101, { params.metadata with rootHash := Bytes32.fill 0x55 }, Simulator.owner, []⟩

theorem other_admitted : Ledger.Admits Simulator.outputs raced.ledger [otherFunding, otherLaunch] := by decide +kernel

theorem other_fresh : Ledger.Fresh Simulator.outputs raced.ledger [otherFunding, otherLaunch] := by
  unfold Ledger.Fresh
  decide +kernel

def crowded : State Simulator.upstream ℕ where
  ledger := raced.ledger.accept other_admitted other_fresh
  tips := raced.tips
  logs := Function.update raced.logs (Bytes32.fill 101)
    (some ⟨{ params.metadata with rootHash := Bytes32.fill 0x55 }, Simulator.owner, [Bytes32.fill 0x55], false⟩)

theorem raced_live : LiveAt Simulator.upstream (simulatorNode.source raced.ledger) Simulator.storeId
    [Simulator.eve, Simulator.updated] Simulator.updated :=
  ⟨⟨⟨_, rfl, Simulator.launch, rfl, rfl, rfl, rfl⟩, List.isChain_pair.mpr ⟨Simulator.update, rfl, rfl, rfl⟩⟩,
    rfl, rfl⟩

theorem crowded_step : Step Simulator.builders Simulator.outputs simulatorNode raced crowded := by
  have hcreate : createStore Simulator.upstream Simulator.builders ⟨Bytes32.fill 0xEE, Simulator.owner, 100⟩ key
      Simulator.owner { params with rootHash := Bytes32.fill 0x55 } =
        .ok ⟨[otherFunding, otherLaunch], some otherEve⟩ := by decide +kernel
  refine .create hcreate rfl (by decide +kernel) ?_ other_admitted other_fresh
  rintro ⟨id, ds, d, hl, hg, hd, hid⟩
  by_cases h : id = Simulator.storeId
  · subst h
    have hmem := (raced_live.isPrefix raced_live.last_eq raced_live.unspent.final hg).subset hd
    rcases List.mem_pair.mp hmem with rfl | rfl
    · exact absurd hid (by decide)
    · exact absurd hid (by decide)
  · have hnone : raced.logs id = none := by
      simp [raced, readTwice, launched, Function.update_of_ne h]
    rw [hnone] at hl
    cases hl

theorem answers_change_with_log_crowded :
    SameAnswers Simulator.upstream Simulator.protocol Simulator.storeId (simulatorNode.source raced.ledger)
      (simulatorNode.source crowded.ledger) ∧
    ¬SameAnswers Simulator.upstream Simulator.protocol Simulator.storeId (simulatorNode.source readTwice.ledger)
      (simulatorNode.source raced.ledger) := by
  constructor
  · apply (answers_change_with_log simulator_contract Simulator.protocol raced_reachable (.single crowded_step)
      rfl rfl _).mpr rfl
    decide
  · intro h
    have hlog := (answers_change_with_log simulator_contract Simulator.protocol readTwice_reachable
      (.single raced_step) rfl rfl (by decide)).mp h
    exact absurd hlog (by decide +kernel)

theorem creation_stays_raced :
    (readTwice.logs Simulator.storeId).isSome ∧
      CreationStays Simulator.upstream Simulator.storeId (simulatorNode.source readTwice.ledger)
        (simulatorNode.source raced.ledger) :=
  ⟨rfl, creation_stays simulator_contract readTwice_reachable (.single raced_step) rfl⟩

theorem one_successor_gone :
    ¬Ledger.Admits Simulator.outputs gone.ledger [Simulator.melt] ∧
      (simulatorNode.source gone.ledger).call (getStoreSingletonTip Simulator.upstream Simulator.storeId) ≠
        .ok Simulator.updated := by
  have ht : Simulator.updated ∈ reread.tips 0 := List.mem_cons_self
  have hledger : gone.ledger = reread.ledger.accept melt_admitted melt_fresh := rfl
  have hb : BuiltOn Simulator.upstream Simulator.builders Simulator.updated [Simulator.melt] :=
    ⟨key, _, rfl, .inr melt_built⟩
  obtain ⟨hagain, hread⟩ := one_successor simulator_contract reread_reachable ht hb melt_admitted melt_fresh hledger
    .refl
  exact ⟨hagain _ hb, hread _⟩

end Simulated

end DigStore.Runs
