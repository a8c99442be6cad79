import DigStore.Library.Stages
import DigStore.Reads
import DigStore.Snapshot

namespace DigStore.Progress

open Library.Dialogue Library.Trail Library.Stages Store Walk Getters Lineages Agreement AppendOnly Snapshot

variable {U : Upstream} {E α T : Type} [Preorder T] {S S₁ S₂ : ChainSource E} {storeId : Bytes32} {n : Nat}
  {t : List (Reading E)}

/-- The first source answers for every coin, and shows no spend that the second
does not. It may withhold what it likes. -/
def View (S₁ S : ChainSource E) : Prop :=
  ∀ id, ∃ answer, S₁.coinSpend id = .ok answer ∧ ∀ s, answer = some s → S.coinSpend id = .ok (some s)

theorem View.shows (h : View S₁ S) {id : Bytes32} {s : CoinSpend} (hs : S₁.coinSpend id = .ok (some s)) :
    S.coinSpend id = .ok (some s) := by
  obtain ⟨answer, ha, hshown⟩ := h id
  cases hs.symm.trans ha
  exact hshown s rfl

theorem View.same (h : View S₁ S) {id : Bytes32} (hne : S₁.coinSpend id ≠ .ok none) :
    S.coinSpend id = S₁.coinSpend id := by
  obtain ⟨answer, ha, hshown⟩ := h id
  rw [ha] at hne ⊢
  cases answer with
  | none => exact absurd rfl hne
  | some s => exact hshown s rfl

theorem View.generations (h : View S₁ S) {ds : List Datastore} (hg : Generations U S₁ storeId ds) :
    Generations U S storeId ds := by
  obtain ⟨d, hd, s, hs, hl⟩ := hg.launched
  refine ⟨⟨d, hd, s, h.shows hs, hl⟩, hg.recreated.imp ?_⟩
  rintro a b ⟨s, hs, hr⟩
  exact ⟨s, h.shows hs, hr⟩

/-- What a walk has found out about a store. -/
def stage : DigStoreResult WalkOutcome → Stage Bytes32 Datastore DigStoreError
  | .ok .notFound => .absent
  | .ok (.live roots tip) => .growing roots tip
  | .ok (.melted roots) => .closed roots
  | .error error => .failed error

theorem stage_injective {r r' : DigStoreResult WalkOutcome} (h : stage r = stage r') : r = r' := by
  match r, r' with
  | .ok .notFound, .ok .notFound => rfl
  | .ok (.live roots tip), .ok (.live roots' tip') =>
      cases h
      rfl
  | .ok (.melted roots), .ok (.melted roots') =>
      cases h
      rfl
  | .error error, .error error' =>
      cases h
      rfl

theorem stage_items (w : WalkOutcome) : (stage (.ok w)).items = some (rootsOf w) := by
  cases w <;> rfl

theorem stage_growing {r : DigStoreResult WalkOutcome} {roots : List Bytes32} {tip : Datastore}
    (h : stage r = .growing roots tip) : r = .ok (.live roots tip) := by
  match r with
  | .ok (.live roots tip) =>
      cases h
      rfl
  | .ok .notFound | .ok (.melted roots) | .error error => cases h

def Empty (e : Reading E) : Prop := ∃ id, e = ⟨.coinSpend id, .ok none⟩

theorem stops_settled {last : Datastore} {roots : List Bytes32} {r : DigStoreResult WalkOutcome}
    (h : Stops U n last roots t r) (hl : ∀ roots tip, r ≠ .ok (.live roots tip)) : ∀ e ∈ t, ¬Empty e := by
  cases h with
  | cap => simp
  | live => exact absurd rfl (hl _ _)
  | melted =>
      intro e he
      rw [List.mem_singleton.mp he]
      rintro ⟨id, h⟩
      cases h
  | refused a detail h ha =>
      intro e he
      rw [List.mem_singleton.mp he]
      rintro ⟨id, h⟩
      cases h
      exact ha

theorem walks_settled {r : DigStoreResult WalkOutcome} (h : Walks U storeId n t r) (hn : r ≠ .ok .notFound)
    (hl : ∀ roots tip, r ≠ .ok (.live roots tip)) : ∀ e ∈ t, ¬Empty e := by
  cases h with
  | notFound => exact absurd rfl hn
  | refused a detail ha =>
      intro e he
      rw [List.mem_singleton.mp he]
      rintro ⟨id, h⟩
      cases h
      exact ha
  | follows hs hd hid hops hstop =>
      intro e he
      rcases List.mem_cons.mp he with rfl | he
      · rintro ⟨id, h⟩
        cases h
      · rcases List.mem_append.mp he with he | he
        · obtain ⟨id, s, rfl⟩ := hops_spent hops e he
          rintro ⟨id, h⟩
          cases h
        · exact stops_settled hstop hl e he

theorem coinSpend_reading {e : Reading E} (h : Reads.isCoinSpend e.1 = true) : ∃ id a, e = ⟨.coinSpend id, a⟩ := by
  match e, h with
  | ⟨.coinSpend id, a⟩, _ => exact ⟨id, a, rfl⟩

theorem generations_comparable {ds ds' : List Datastore} (h : Generations U S storeId ds)
    (h' : Generations U S storeId ds') : ds <+: ds' ∨ ds' <+: ds := by
  obtain ⟨d, hd, hl⟩ := h.launched
  obtain ⟨d', hd', hl'⟩ := h'.launched
  obtain rfl := launches_unique hl hl'
  obtain ⟨rest, rfl⟩ := List.head?_eq_some_iff.mp hd
  obtain ⟨rest', rfl⟩ := List.head?_eq_some_iff.mp hd'
  exact isPrefix_or_isPrefix recreates_unique h.recreated h'.recreated

theorem generations_le {ds ds' : List Datastore} {tip tip' : Datastore} (hp : ds <+: ds')
    (hlast : ds.getLast? = some tip) (hlast' : ds'.getLast? = some tip') :
    (.growing (ds.map Datastore.root) tip : Stage Bytes32 Datastore DigStoreError) ≤
      .growing (ds'.map Datastore.root) tip' := by
  apply Stage.growing_le_growing (hp.map Datastore.root)
  intro hlen
  rw [List.length_map, List.length_map] at hlen
  obtain rfl := hp.eq_of_length hlen
  exact Option.some.inj (hlast.symm.trans hlast')

theorem means_growing {ds : List Datastore} {tip : Datastore} {r : DigStoreResult WalkOutcome}
    (hr : Means U S storeId n r) (h : Generations U S storeId ds) (hlast : ds.getLast? = some tip) :
    (.growing (ds.map Datastore.root) tip : Stage Bytes32 Datastore DigStoreError) ≤ stage r := by
  cases hr with
  | notFound h' => exact absurd h' h.present
  | live h' => exact generations_le (h'.isPrefix h'.last_eq h'.unspent.final h) hlast h'.last_eq
  | melted h' =>
      exact Stage.growing_le_closed ((h'.isPrefix h'.last_eq h'.melts.final h).map Datastore.root)
  | launcher detail | faulty detail | cap detail => exact Stage.growing_le_failed _

section Call

variable [ToString E]

theorem View.call_settled (h : View S₁ S) {r : DigStoreResult WalkOutcome}
    (hr : S₁.call (walkOutcomeBounded U storeId n) = r) (hn : r ≠ .ok .notFound)
    (hl : ∀ roots tip, r ≠ .ok (.live roots tip)) : S.call (walkOutcomeBounded U storeId n) = r := by
  have hrun := runs_consult S₁.answer (walkOutcomeBounded U storeId n).run
  have hanswers := consult_answers S₁.answer (walkOutcomeBounded U storeId n).run
  rw [ChainSource.call, ChainSource.consult] at hr
  rw [hr] at hrun
  have hwalk := walkOutcomeBounded_runs hrun
  have hall : ∀ e ∈ (consult S₁.answer (walkOutcomeBounded U storeId n).run).trace, S.answer e.1 = e.2 := by
    intro e he
    have ha := hanswers e he
    have hne := walks_settled hwalk hn hl e he
    obtain ⟨id, a, rfl⟩ := coinSpend_reading (Reads.walks_spends hwalk e he)
    change S₁.coinSpend id = a at ha
    subst ha
    exact h.same fun hnone => hne ⟨id, by rw [hnone]⟩
  exact congrArg Outcome.result (hrun.consult_eq hall)

/-- A view is never ahead of what it is a view of, and never beside it. -/
theorem View.stage_le (h : View S₁ S) (storeId : Bytes32) (n : Nat) :
    stage (S₁.call (walkOutcomeBounded U storeId n)) ≤ stage (S.call (walkOutcomeBounded U storeId n)) := by
  match hr : S₁.call (walkOutcomeBounded U storeId n) with
  | .ok .notFound => exact Stage.absent_le _
  | .ok (.live roots tip) =>
      obtain ⟨ds, hlive, -, rfl⟩ := live_iff.mp hr
      exact means_growing (call_means S storeId n) (h.generations hlive.toGenerations) hlive.last_eq
  | .ok (.melted roots) => rw [h.call_settled hr (by simp) (by simp)]
  | .error error => rw [h.call_settled hr (by simp) (by simp)]

/-- Readers of one chain, each kept from seeing any part of it, never disagree:
one of them is behind the other, or both are where the other is. -/
theorem views_agree (h₁ : View S₁ S) (h₂ : View S₂ S) (U : Upstream) (storeId : Bytes32) (n : Nat) :
    stage (S₁.call (walkOutcomeBounded U storeId n)) ≤ stage (S₂.call (walkOutcomeBounded U storeId n)) ∨
      stage (S₂.call (walkOutcomeBounded U storeId n)) ≤ stage (S₁.call (walkOutcomeBounded U storeId n)) := by
  apply Stage.comparable_of_le (h₁.stage_le storeId n) (h₂.stage_le storeId n)
  intro xs a ys b hxs hys
  obtain ⟨ds, hlive, -, rfl⟩ := live_iff.mp (stage_growing hxs)
  obtain ⟨ds', hlive', -, rfl⟩ := live_iff.mp (stage_growing hys)
  rw [hxs, hys]
  rcases generations_comparable (h₁.generations hlive.toGenerations) (h₂.generations hlive'.toGenerations) with
    hp | hp
  · exact .inl (generations_le hp hlive.last_eq hlive'.last_eq)
  · exact .inr (generations_le hp hlive'.last_eq hlive.last_eq)

theorem chain_view (spends more : List CoinSpend) :
    View (Simulator.chain spends []) (Simulator.chain (spends ++ more) []) := by
  intro id
  refine ⟨_, rfl, ?_⟩
  intro s hs
  have hshown : (Simulator.chain spends []).coinSpend id = .ok (some s) := congrArg Except.ok hs
  exact Simulator.chain_grows hshown

theorem views_agree_simulated :
    stage ((Simulator.chain [Simulator.launch] []).call
        (walkOutcomeBounded Simulator.upstream Simulator.storeId 2)) ≤
      stage ((Simulator.chain [Simulator.launch, Simulator.update] []).call
        (walkOutcomeBounded Simulator.upstream Simulator.storeId 2)) ∨
    stage ((Simulator.chain [Simulator.launch, Simulator.update] []).call
        (walkOutcomeBounded Simulator.upstream Simulator.storeId 2)) ≤
      stage ((Simulator.chain [Simulator.launch] []).call
        (walkOutcomeBounded Simulator.upstream Simulator.storeId 2)) :=
  views_agree (chain_view [Simulator.launch] [Simulator.update, Simulator.melt])
    (chain_view [Simulator.launch, Simulator.update] [Simulator.melt]) Simulator.upstream Simulator.storeId 2

def finish (chain : Evolution T E) (τ : ℕ →o T) (x : Getter E α) : T := τ ((chain.during τ x).trace.length - 1)

theorem readAlong_walk {chain : Evolution T E} {τ : ℕ →o T} {r : DigStoreResult WalkOutcome}
    (h : Runs (walkOutcomeBounded U storeId n).run t r) (ht : ReadAlong chain τ t) :
    ∃ last, t.length = last + 1 ∧ (∀ e ∈ t, (chain.at (τ last)).answer e.1 = e.2) ∧
      (chain.at (τ last)).call (walkOutcomeBounded U storeId n) = r := by
  have hwalk := walkOutcomeBounded_runs h
  obtain ⟨last, hlast⟩ := walks_length hwalk
  have hall := ht.at_last hwalk hlast
  exact ⟨last, hlast, hall, congrArg Outcome.result (h.consult_eq hall)⟩

theorem during_last (chain : Evolution T E) (τ : ℕ →o T) {x : Getter E α}
    {view : WalkOutcome → DigStoreResult α} (hx : ReadsOff U storeId x view) :
    ∃ last, (chain.during τ x).trace.length = last + 1 ∧
      (chain.during τ x).result = (chain.at (τ last)).call x := by
  have hrun := during_runs chain τ x
  obtain ⟨w, hw, -⟩ := hx _ _ hrun
  obtain ⟨last, hlast, hall, -⟩ := readAlong_walk hw (during_readAlong chain τ x)
  exact ⟨last, hlast, (congrArg Outcome.result (hrun.consult_eq hall)).symm⟩

theorem during_atomic (chain : Evolution T E) (τ : ℕ →o T) {x : Getter E α}
    {view : WalkOutcome → DigStoreResult α} (hx : ReadsOff U storeId x view) :
    (chain.during τ x).result = (chain.at (finish chain τ x)).call x := by
  obtain ⟨last, hlast, hr⟩ := during_last chain τ hx
  rw [hr, finish, hlast, Nat.add_sub_cancel]

theorem during_walk (chain : Evolution T E) (τ : ℕ →o T) (storeId : Bytes32) (n : Nat) :
    (chain.during τ (walkOutcomeBounded U storeId n)).result =
      (chain.at (finish chain τ (walkOutcomeBounded U storeId n))).call (walkOutcomeBounded U storeId n) := by
  obtain ⟨last, hlast, hr⟩ : ∃ last, (chain.during τ (walkOutcomeBounded U storeId n)).trace.length = last + 1 ∧
      (chain.during τ (walkOutcomeBounded U storeId n)).result =
        (chain.at (τ last)).call (walkOutcomeBounded U storeId n) := walk_atomic chain τ
  rw [hr, finish, hlast, Nat.add_sub_cancel]

omit [ToString E] in
theorem at_view (chain : Evolution T E) {a b : T} (h : a ≤ b) : View (chain.at a) (chain.at b) := by
  intro id
  refine ⟨chain.spends a id, rfl, ?_⟩
  intro s hs
  exact congrArg Except.ok (chain.grows h hs)

theorem stages_continue (chain : Evolution T E) {a b : T} (h : a ≤ b) {w w' : WalkOutcome}
    (hw : (chain.at a).call (walkOutcome U storeId) = .ok w)
    (hw' : (chain.at b).call (walkOutcome U storeId) = .ok w') : stage (.ok w) ≤ stage (.ok w') := by
  rw [← hw, ← hw']
  exact (at_view chain h).stage_le storeId maxLineageGenerations

theorem roots_continue (chain : Evolution T E) {a b : T} (h : a ≤ b) {w w' : WalkOutcome}
    (hw : (chain.at a).call (walkOutcome U storeId) = .ok w)
    (hw' : (chain.at b).call (walkOutcome U storeId) = .ok w') : rootsOf w <+: rootsOf w' :=
  Stage.items_le (stages_continue chain h hw hw') (stage_items w) (stage_items w')

/-- A status and the outcome of the walk it begins with, of a call that makes so
many reads. -/
inductive Taken (U : Upstream) (chain : Evolution T E) (storeId : Bytes32) (target : UInt32) (τ : ℕ →o T) :
    ℕ → StoreStatus → WalkOutcome → Prop
  | notFound {len} : Taken U chain storeId target τ len (closedStatus .notFound storeId 0) .notFound
  | melted {len roots} :
      Taken U chain storeId target τ len (closedStatus .melted storeId roots.length) (.melted roots)
  | live {i roots tip record peak} (hr : chain.records (τ i) (U.coinId tip.coin) = .ok record)
      (hp : chain.peak (τ (i + 1)) = .ok peak) :
      Taken U chain storeId target τ (i + 2) (liveReport U storeId target roots tip record peak) (.live roots tip)

theorem status_taken {chain : Evolution T E} {τ : ℕ →o T} {target : UInt32} {st : StoreStatus}
    (h : (chain.during τ (getStoreStatus U storeId target)).result = .ok st) :
    ∃ last w, last < (chain.during τ (getStoreStatus U storeId target)).trace.length ∧
      (chain.at (τ last)).call (walkOutcome U storeId) = .ok w ∧
      Taken U chain storeId target τ (chain.during τ (getStoreStatus U storeId target)).trace.length st w := by
  have hrep := Status.getStoreStatus_runs (during_runs chain τ (getStoreStatus U storeId target))
  have ht := during_readAlong chain τ (getStoreStatus U storeId target)
  rw [h] at hrep
  generalize (chain.during τ (getStoreStatus U storeId target)).trace = t at hrep ht ⊢
  cases hrep with
  | notFound hw =>
      obtain ⟨last, hlast, -, hcall⟩ := readAlong_walk hw ht
      exact ⟨last, .notFound, by omega, hcall, .notFound⟩
  | melted hw =>
      obtain ⟨last, hlast, -, hcall⟩ := readAlong_walk hw ht
      exact ⟨last, _, by omega, hcall, .melted⟩
  | @live w u roots tip _ hw ha =>
      obtain ⟨last, hlast, -, hcall⟩ := readAlong_walk hw ht.initial
      cases ha with
      | reported record peak hs =>
          have hrecord := (record_read ht).2
          have hpeak := ht (w.length + 1) ⟨.peakHeight, .ok peak⟩ (by simp)
          refine ⟨last, .live roots tip, ?_, hcall, ?_⟩
          · rw [List.length_append]
            omega
          · rw [List.length_append]
            exact .live hrecord hpeak

inductive Tells (U : Upstream) (storeId : Bytes32) (st : StoreStatus) : WalkOutcome → Prop
  | notFound (h : st = closedStatus .notFound storeId 0) : Tells U storeId st .notFound
  | melted {roots} (h : st = closedStatus .melted storeId roots.length) : Tells U storeId st (.melted roots)
  | live {roots tip} (hk : st.status = .live) (h : Shows U st roots tip) : Tells U storeId st (.live roots tip)

/-- What a status reports is one moment's, unless it is a live one that no record
of the tip confirms. -/
theorem status_moment {chain : Evolution T E} {τ : ℕ →o T} {target : UInt32} (hrec : chain.RecordsAgree U)
    {st : StoreStatus} (hst : (chain.during τ (getStoreStatus U storeId target)).result = .ok st)
    (hv : st.status = .live → st.verified = true) :
    ∃ i < (chain.during τ (getStoreStatus U storeId target)).trace.length, ∃ w,
      (chain.at (τ i)).call (walkOutcome U storeId) = .ok w ∧ Tells U storeId st w := by
  by_cases hlive : st.status = .live
  · obtain ⟨i, a, roots, tip, hi, hw, hshows⟩ := status_atomic hrec hst hlive (hv hlive)
    exact ⟨i, (List.getElem?_eq_some_iff.mp hi).1, .live roots tip, hw, .live hlive hshows⟩
  · obtain ⟨last, w, hlast, hw, htaken⟩ := status_taken hst
    generalize (chain.during τ (getStoreStatus U storeId target)).trace.length = len at hlast htaken ⊢
    cases htaken with
    | notFound => exact ⟨last, hlast, .notFound, hw, .notFound rfl⟩
    | melted => exact ⟨last, hlast, _, hw, .melted rfl⟩
    | live => exact absurd rfl hlive

structure CallsAdvance (U : Upstream) (chain : Evolution T E) (storeId : Bytes32) (τ τ' : ℕ →o T) : Prop where
  walk : ∀ n, finish chain τ (walkOutcomeBounded U storeId n) ≤ finish chain τ' (walkOutcomeBounded U storeId n) →
    stage (chain.during τ (walkOutcomeBounded U storeId n)).result ≤
      stage (chain.during τ' (walkOutcomeBounded U storeId n)).result
  history : finish chain τ (getRootHistory U storeId) ≤ finish chain τ' (getRootHistory U storeId) →
    ∀ history history', (chain.during τ (getRootHistory U storeId)).result = .ok history →
      (chain.during τ' (getRootHistory U storeId)).result = .ok history' → history.roots <+: history'.roots
  latest : finish chain τ (getLatestRoot U storeId) ≤ finish chain τ' (getRootHistory U storeId) →
    ∀ root history', (chain.during τ (getLatestRoot U storeId)).result = .ok root →
      (chain.during τ' (getRootHistory U storeId)).result = .ok history' → root ∈ history'.roots

/-- Calls whose reads are spread over time find a store to move forward only. -/
theorem calls_advance (U : Upstream) (chain : Evolution T E) (storeId : Bytes32) (τ τ' : ℕ →o T) :
    CallsAdvance U chain storeId τ τ' where
  walk n hle := by
    rw [during_walk, during_walk]
    exact (at_view chain hle).stage_le storeId n
  history hle history history' hh hh' := by
    rw [during_atomic chain τ history_readsOff] at hh
    rw [during_atomic chain τ' history_readsOff] at hh'
    obtain ⟨w, hw, hr⟩ := history_call hh
    obtain ⟨w', hw', hr'⟩ := history_call hh'
    rw [hr, hr']
    exact roots_continue chain hle hw hw'
  latest hle root history' hroot hh' := by
    rw [during_atomic chain τ latestRoot_readsOff] at hroot
    rw [during_atomic chain τ' history_readsOff] at hh'
    obtain ⟨w, hw, hlast⟩ := latestRoot_call hroot
    obtain ⟨w', hw', hr'⟩ := history_call hh'
    rw [hr']
    exact (roots_continue chain hle hw hw').subset (List.mem_of_getLast? hlast)

end Call

end DigStore.Progress
