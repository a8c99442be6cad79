import DigStore.Library.Journal
import DigStore.Publishers

namespace DigStore.Registry

open Library.Journal Store Getters Lineages Agreement Lifecycle World Publishers

variable {U : Upstream} {B : SpendBuilders} {outputs : CoinSpend → List Coin} {P E : Type} [DecidableEq P]
  [ToString E] {node : Node U E} {w w' : State U P} {gens : Bytes32 → List Datastore} {storeId : Bytes32}
  {log : StoreLog}

/-- What a store is created with and keeps: its metadata, whose root is that of
the first generation, and its owner. -/
abbrev Deed := DigDataStoreMetadata × Bytes32

abbrev StoreEvent := Event Bytes32 Deed Bytes32

def record (log : StoreLog) : Record Deed Bytes32 := ⟨(log.metadata, log.ownerPuzzleHash), log.roots, log.melted⟩

def book (w : State U P) : Book Bytes32 Deed Bytes32 := fun storeId => (w.logs storeId).map record

/-- One accepted operation of a publisher, and the event that it is. -/
inductive Accepts (B : SpendBuilders) (outputs : CoinSpend → List Coin) (node : Node U E) :
    State U P → StoreEvent → State U P → Prop
  | create {w : State U P} {parent owner ownerPuzzleHash params built child}
      (hb : createStore U B parent owner ownerPuzzleHash params = .ok built) (hc : built.child = some child)
      (hp : parent ∈ w.ledger.coins) (ho : ¬StoreCoin node w parent)
      (ha : Ledger.Admits outputs w.ledger built.coinSpends) (hf : Ledger.Fresh outputs w.ledger built.coinSpends) :
      Accepts B outputs node w (.opened child.info.launcherId (params.metadata, ownerPuzzleHash) params.rootHash)
        ⟨w.ledger.accept ha hf, w.tips, Function.update w.logs child.info.launcherId
          (some ⟨params.metadata, ownerPuzzleHash, [params.rootHash], false⟩)⟩
  | modify {w : State U P} (p) {tip owner newRoot built} (ht : tip ∈ w.tips p)
      (hb : modifyStore U B tip owner newRoot = .ok built)
      (ha : Ledger.Admits outputs w.ledger built.coinSpends) (hf : Ledger.Fresh outputs w.ledger built.coinSpends) :
      Accepts B outputs node w (.added tip.info.launcherId newRoot)
        ⟨w.ledger.accept ha hf, w.tips, Function.update w.logs tip.info.launcherId
          ((w.logs tip.info.launcherId).map (·.publish newRoot))⟩
  | melt {w : State U P} (p) {tip owner built} (ht : tip ∈ w.tips p) (hb : meltStore U B tip owner = .ok built)
      (ha : Ledger.Admits outputs w.ledger built.coinSpends) (hf : Ledger.Fresh outputs w.ledger built.coinSpends) :
      Accepts B outputs node w (.closed tip.info.launcherId)
        ⟨w.ledger.accept ha hf, w.tips, Function.update w.logs tip.info.launcherId
          ((w.logs tip.info.launcherId).map (·.close))⟩

theorem accepts_step {e : StoreEvent} (h : Accepts B outputs node w e w') : Step B outputs node w w' := by
  cases h with
  | create hb hc hp ho ha hf => exact .create hb hc hp ho ha hf
  | modify p ht hb ha hf => exact .modify p ht hb ha hf
  | melt p ht hb ha hf => exact .melt p ht hb ha hf

theorem step_cases (h : Step B outputs node w w') : (∃ e, Accepts B outputs node w e w') ∨ w'.logs = w.logs := by
  cases h with
  | create hb hc hp ho ha hf => exact .inl ⟨_, .create hb hc hp ho ha hf⟩
  | modify p ht hb ha hf => exact .inl ⟨_, .modify p ht hb ha hf⟩
  | melt p ht hb ha hf => exact .inl ⟨_, .melt p ht hb ha hf⟩
  | read | other | refused => exact .inr rfl

omit [DecidableEq P] in
theorem book_update (L : Ledger U) (tips : P → List Datastore) (logs : Bytes32 → Option StoreLog) (id : Bytes32)
    (log : StoreLog) :
    book ⟨L, tips, Function.update logs id (some log)⟩ =
      Function.update (book ⟨L, tips, logs⟩) id (some (record log)) := by
  funext a
  by_cases ha : a = id
  · subst ha
    simp [book]
  · simp [book, ha]

omit [DecidableEq P] in
theorem book_congr (h : w'.logs = w.logs) : book w' = book w := by
  funext storeId
  rw [book, book, h]

omit [DecidableEq P] in
theorem book_eq_none (hn : w.logs storeId = none) : book w storeId = none := by simp [book, hn]

omit [DecidableEq P] in
theorem book_eq_some (hlog : w.logs storeId = some log) : book w storeId = some (record log) := by simp [book, hlog]

omit [DecidableEq P] [ToString E] in
theorem launcher_new (h : Inv node w gens) {bundle : List CoinSpend} {coin : Coin}
    (hf : Ledger.Fresh outputs w.ledger bundle) (hc : coin ∈ bundle.flatMap outputs) :
    w.logs (U.coinId coin) = none := by
  by_contra hne
  obtain ⟨log, last, -, hh⟩ := h.holds_of_isSome (Option.isSome_iff_ne_none.mpr hne)
  obtain ⟨d, -, s, hs, hid, -⟩ := hh.launched
  exact Ledger.fresh_output hf hc (Ledger.spendOf_coin (source_spend.mp hs)) hid

omit [DecidableEq P] [ToString E] in
theorem accepts_enters (hB : MerkleContract U B outputs) (h : Inv node w gens) {e : StoreEvent}
    (ha : Accepts B outputs node w e w') : Enters (book w) e (book w') := by
  cases ha with
  | create hb hc hp ho ha hf =>
      obtain ⟨funding, launcher, child', hm⟩ := hB.mint _ _ _ _ _ _ _ _ _ _ _ _ _ (createStore_ok hb)
      cases hm.child_eq.symm.trans hc
      have hlaunched := List.mem_flatMap.mpr ⟨funding, (hm.spends funding).mpr (.inl rfl), hm.launched⟩
      have hnew := launcher_new h hf hlaunched
      rw [book_update]
      refine .opened _ _ (book_eq_none ?_)
      rw [hm.info]
      exact hnew
  | modify p ht hb ha hf =>
      obtain ⟨s, child, hspends, hcoin, -⟩ := hB.updateRoot _ _ _ _ (h.hydrated ht) (modifyStore_ok hb)
      obtain ⟨log, hlog, hopen, -⟩ := h.admitted ht ha hspends hcoin
      rw [hlog, Option.map_some, book_update]
      exact .added _ (book_eq_some hlog) hopen
  | melt p ht hb ha hf =>
      obtain ⟨s, hspends, hcoin, -⟩ := hB.melt _ _ _ (h.hydrated ht) (meltStore_ok hb)
      obtain ⟨log, hlog, hopen, -⟩ := h.admitted ht ha hspends hcoin
      rw [hlog, Option.map_some, book_update]
      exact .closed (book_eq_some hlog) hopen

/-- A run of the world with the events that were accepted in it, in their order. -/
inductive Traced (B : SpendBuilders) (outputs : CoinSpend → List Coin) (node : Node U E) :
    State U P → List StoreEvent → State U P → Prop
  | start (w : State U P) : Traced B outputs node w [] w
  | accepted {w w' w'' : State U P} {es e} (h : Traced B outputs node w es w') (ha : Accepts B outputs node w' e w'') :
      Traced B outputs node w (es ++ [e]) w''
  | quiet {w w' w'' : State U P} {es} (h : Traced B outputs node w es w') (hs : Step B outputs node w' w'')
      (hl : w''.logs = w'.logs) : Traced B outputs node w es w''

def empty (L : Ledger U) : State U P := ⟨L, fun _ => [], fun _ => none⟩

theorem reachable_traced (hw : Reachable B outputs node w) : ∃ L es, Traced B outputs node (empty L) es w := by
  obtain ⟨L, hsteps⟩ := hw
  refine ⟨L, ?_⟩
  induction hsteps with
  | refl => exact ⟨[], .start _⟩
  | tail _ hs ih =>
      obtain ⟨es, h⟩ := ih
      rcases step_cases hs with ⟨e, ha⟩ | hl
      · exact ⟨es ++ [e], .accepted h ha⟩
      · exact ⟨es, .quiet h hs hl⟩

theorem traced_reachable {L : Ledger U} {es : List StoreEvent} (h : Traced B outputs node (empty L) es w) :
    Reachable B outputs node w := by
  refine ⟨L, ?_⟩
  induction h with
  | start => exact .refl
  | accepted _ ha ih => exact ih.tail (accepts_step ha)
  | quiet _ hs _ ih => exact ih.tail hs

theorem traced_run (hB : MerkleContract U B outputs) {L : Ledger U} {es : List StoreEvent}
    (h : Traced B outputs node (empty L) es w) : Run (fun _ => none) es (book w) := by
  induction h with
  | start => exact .nil _
  | accepted h ha ih =>
      obtain ⟨gens, hi⟩ := reachable_inv hB (traced_reachable h)
      exact ih.concat (accepts_enters hB hi ha)
  | quiet _ _ hl ih =>
      rw [book_congr hl]
      exact ih

theorem steps_run (hB : MerkleContract U B outputs) (hw : Reachable B outputs node w)
    (hs : Relation.ReflTransGen (Step B outputs node) w w') : ∃ es, Run (book w) es (book w') := by
  induction hs with
  | refl => exact ⟨[], .nil _⟩
  | @tail w₁ w₂ hs hstep ih =>
      obtain ⟨es, hrun⟩ := ih
      rcases step_cases hstep with ⟨e, ha⟩ | hl
      · obtain ⟨L, hfirst⟩ := hw
        obtain ⟨gens, hi⟩ := reachable_inv hB ⟨L, hfirst.trans hs⟩
        exact ⟨es ++ [e], hrun.concat (accepts_enters hB hi ha)⟩
      · rw [book_congr hl]
        exact ⟨es, hrun⟩

theorem logs_grow (hB : MerkleContract U B outputs) (hw : Reachable B outputs node w)
    (hs : Relation.ReflTransGen (Step B outputs node) w w') (hlog : w.logs storeId = some log) :
    ∃ log', w'.logs storeId = some log' ∧ record log ≤ record log' := by
  obtain ⟨es, hrun⟩ := steps_run hB hw hs
  obtain ⟨r, hr, hle⟩ := hrun.le (book_eq_some hlog)
  obtain ⟨log', hlog', rfl⟩ := Option.map_eq_some_iff.mp hr
  exact ⟨log', hlog', hle⟩

structure ReadsJournal (node : Node U E) (L : Ledger U) (storeId : Bytes32) (es : List StoreEvent) : Prop where
  history : (node.source L).call (getRootHistory U storeId) = .ok ⟨itemsOf storeId es⟩
  latest : ∀ root, (node.source L).call (getLatestRoot U storeId) = .ok root ↔
    .closed storeId ∉ es ∧ (itemsOf storeId es).getLast? = some root
  melted : (∃ detail, (node.source L).call (getStoreSingletonTip U storeId) = .error (.proof detail)) ↔
    .closed storeId ∈ es
  created : ∃ metadata owner root, .opened storeId (metadata, owner) root ∈ es ∧
    ∀ tip, (node.source L).call (getStoreSingletonTip U storeId) = .ok tip →
      tip.info = ⟨storeId, { metadata with rootHash := tip.root }, owner, []⟩
  created_once : ∀ before deed root after, es = before ++ .opened storeId deed root :: after →
    (∀ e ∈ before, e.key ≠ storeId) ∧ ∀ deed' root', .opened storeId deed' root' ∉ after
  after_close : ∀ before after, es = before ++ .closed storeId :: after → ∀ e ∈ after, e.key ≠ storeId

/-- The getters return what the journal of accepted operations says of a store:
nothing that was accepted is lost, told twice or told in another order. -/
theorem reads_journal (hB : MerkleContract U B outputs) {L : Ledger U} {es : List StoreEvent}
    (h : Traced B outputs node (empty L) es w) (ho : ∃ deed root, .opened storeId deed root ∈ es)
    (hcap : (itemsOf storeId es).length ≤ maxLineageGenerations) : ReadsJournal node w.ledger storeId es := by
  have hrun := traced_run hB h
  obtain ⟨gens, hi⟩ := reachable_inv hB (traced_reachable h)
  obtain ⟨deed, root, hopened⟩ := ho
  obtain ⟨r, hr⟩ : ∃ r, book w storeId = some r := hrun.present hopened
  obtain ⟨log, hlog, rfl⟩ := Option.map_eq_some_iff.mp hr
  obtain ⟨last, hh⟩ := hi.holds storeId log hlog
  have hroots : log.roots = itemsOf storeId es := by
    have hitems := hrun.items storeId
    rwa [itemsAt, hr, itemsAt] at hitems
  have hclosed : log.melted = true ↔ .closed storeId ∈ es := by simpa [record] using hrun.closes hr
  have hlast : (itemsOf storeId es).getLast? = some last.root := by
    rw [← hroots, ← hh.roots, List.getLast?_map, hh.last_eq]
    rfl
  rw [← hroots] at hcap
  refine ⟨?_, ?_, ?_, ?_, ?_, ?_⟩
  · rw [hh.call hcap history_readsOff, ← hroots]
    cases log.melted <;> rfl
  · intro root'
    rw [hh.call hcap latestRoot_readsOff, ← hclosed, hlast]
    cases hm : log.melted with
    | true => simp [tipView, lineageOf, liveTip, Except.bind]
    | false => simp [tipView, lineageOf, liveTip, Except.bind]
  · rw [hh.call hcap tip_readsOff, ← hclosed]
    cases hm : log.melted with
    | true => exact iff_of_true ⟨_, rfl⟩ rfl
    | false => simp [tipView, lineageOf, liveTip, Except.bind]
  · obtain ⟨item, hmem⟩ := hrun.opened rfl hr
    refine ⟨log.metadata, log.ownerPuzzleHash, item, hmem, ?_⟩
    intro tip htip
    obtain ⟨rfl, -⟩ := hh.tip_eq htip
    exact hh.info tip hh.last_mem
  · rintro before deed root after rfl
    exact hrun.around_opening
  · rintro before after rfl
    exact hrun.after_closing

theorem reads_journal_raced :
    ∃ L es, Traced Simulator.builders Simulator.outputs simulatorNode (empty L) es raced ∧
      itemsOf Simulator.storeId es = [Bytes32.fill 0x11, Bytes32.fill 0x22] ∧
      ReadsJournal simulatorNode raced.ledger Simulator.storeId es := by
  obtain ⟨L, es, h⟩ := reachable_traced raced_reachable
  have hrun := traced_run simulator_contract h
  have hbook : book raced Simulator.storeId = some (record
      ⟨params.metadata, Simulator.owner, [Bytes32.fill 0x11, Bytes32.fill 0x22], false⟩) := rfl
  have hitems : itemsOf Simulator.storeId es = [Bytes32.fill 0x11, Bytes32.fill 0x22] := by
    have hall := hrun.items Simulator.storeId
    rw [itemsAt, hbook] at hall
    exact hall.symm
  obtain ⟨item, hmem⟩ := hrun.opened rfl hbook
  refine ⟨L, es, h, hitems, reads_journal simulator_contract h ⟨_, item, hmem⟩ ?_⟩
  rw [hitems]
  decide

end DigStore.Registry
