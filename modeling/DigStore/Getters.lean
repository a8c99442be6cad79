import DigStore.Walk

namespace DigStore.Getters

open Library.Dialogue Store Walk

variable {U : Upstream} {P : UrnProtocol} {E α β : Type} [ToString E] {storeId : Bytes32}

/-- The getter `x` walks once, computes its result from the outcome by `view`
and asks nothing more. -/
def ReadsOff (U : Upstream) (storeId : Bytes32) (x : Getter E α)
    (view : WalkOutcome → DigStoreResult α) : Prop :=
  ∀ t r, Runs x.run t r → ∃ w, Runs (walkOutcome U storeId).run t w ∧ r = w.bind view

theorem ReadsOff.seq {x : Getter E α} {view : WalkOutcome → DigStoreResult α}
    (h : ReadsOff U storeId x view) (f : α → DigStoreResult β) :
    ReadsOff U storeId (x >>= fun a => ofResult (f a)) (fun w => (view w).bind f) := by
  intro t r hr
  rcases runs_seq.mp hr with ⟨e, rfl, h₁⟩ | ⟨t₁, a, t₂, rfl, h₁, h₂⟩
  · obtain ⟨w, hw, he⟩ := h _ _ h₁
    refine ⟨w, hw, ?_⟩
    cases w with
    | error e' => cases he; rfl
    | ok w => exact congrArg (fun v => Except.bind v f) he
  · obtain ⟨rfl, rfl⟩ := runs_ofResult.mp h₂
    obtain ⟨w, hw, ha⟩ := h _ _ h₁
    refine ⟨w, by simpa using hw, ?_⟩
    cases w with
    | error e' => cases ha
    | ok w => exact congrArg (fun v => Except.bind v f) ha

theorem walkOutcome_readsOff : ReadsOff (E := E) U storeId (walkOutcome U storeId) .ok := by
  intro t r hr
  refine ⟨r, hr, ?_⟩
  cases r <;> rfl

def tipView (storeId : Bytes32) (w : WalkOutcome) : DigStoreResult Datastore :=
  (lineageOf storeId w).bind (liveTip storeId)

theorem walkLineage_readsOff :
    ReadsOff (E := E) U storeId (walkLineage U storeId) (lineageOf storeId) :=
  walkOutcome_readsOff.seq (lineageOf storeId)

theorem tip_readsOff :
    ReadsOff (E := E) U storeId (getStoreSingletonTip U storeId) (tipView storeId) :=
  walkLineage_readsOff.seq (liveTip storeId)

theorem history_readsOff : ReadsOff (E := E) U storeId (getRootHistory U storeId)
    (fun w => (lineageOf storeId w).bind fun lineage => .ok (RootHistory.mk lineage.roots)) :=
  walkLineage_readsOff.seq (fun lineage => .ok (RootHistory.mk lineage.roots))

theorem tipMetadata_readsOff (field : DigDataStoreMetadata → α) :
    ReadsOff (E := E) U storeId (tipMetadata U field storeId)
      (fun w => (tipView storeId w).bind fun tip => .ok (field tip.info.metadata)) :=
  tip_readsOff.seq (fun tip => .ok (field tip.info.metadata))

theorem latestRoot_readsOff : ReadsOff (E := E) U storeId (getLatestRoot U storeId)
    (fun w => (tipView storeId w).bind fun tip => .ok tip.root) :=
  tipMetadata_readsOff (·.rootHash)

inductive LineageGetter : Type → Type
  | singletonTip : LineageGetter Datastore
  | rootHistory : LineageGetter RootHistory
  | latestRoot : LineageGetter Bytes32
  | latestRootUrn : LineageGetter String
  | label : LineageGetter (Option String)
  | description : LineageGetter (Option String)
  | sizeBucket : LineageGetter (Option SizeBucket)
  | programHash : LineageGetter (Option Bytes32)

def LineageGetter.call (U : Upstream) (P : UrnProtocol) (storeId : Bytes32) : LineageGetter α → Getter E α
  | .singletonTip => getStoreSingletonTip U storeId
  | .rootHistory => getRootHistory U storeId
  | .latestRoot => getLatestRoot U storeId
  | .latestRootUrn => getLatestRootUrn U P storeId
  | .label => getStoreLabel U storeId
  | .description => getStoreDescription U storeId
  | .sizeBucket => getStoreSizeBucket U storeId
  | .programHash => getStoreProgramHash U storeId

def LineageGetter.view (P : UrnProtocol) (storeId : Bytes32) : LineageGetter α → WalkOutcome → DigStoreResult α
  | .singletonTip, w => tipView storeId w
  | .rootHistory, w => (lineageOf storeId w).bind fun lineage => .ok (RootHistory.mk lineage.roots)
  | .latestRoot, w => (tipView storeId w).bind fun tip => .ok tip.root
  | .latestRootUrn, w => ((tipView storeId w).bind fun tip => .ok tip.root).bind
      fun root => .ok (Urn.capsuleUrn P storeId root)
  | .label, w => (tipView storeId w).bind fun tip => .ok tip.info.metadata.label
  | .description, w => (tipView storeId w).bind fun tip => .ok tip.info.metadata.description
  | .sizeBucket, w => (tipView storeId w).bind fun tip => .ok tip.info.metadata.sizeBucket
  | .programHash, w => (tipView storeId w).bind fun tip => .ok tip.info.metadata.programHash

theorem LineageGetter.readsOff (g : LineageGetter α) :
    ReadsOff (E := E) U storeId (g.call U P storeId) (g.view P storeId) := by
  cases g with
  | singletonTip => exact tip_readsOff
  | rootHistory => exact history_readsOff
  | latestRoot => exact latestRoot_readsOff
  | latestRootUrn => exact latestRoot_readsOff.seq (fun root => .ok (Urn.capsuleUrn P storeId root))
  | label => exact tipMetadata_readsOff (·.label)
  | description => exact tipMetadata_readsOff (·.description)
  | sizeBucket => exact tipMetadata_readsOff (·.sizeBucket)
  | programHash => exact tipMetadata_readsOff (·.programHash)

theorem LineageGetter.view_error (g : LineageGetter α) {w : WalkOutcome} {e : DigStoreError}
    (h : g.view P storeId w = .error e) : e.IsProof := by
  cases w <;> cases g <;> cases h <;> trivial

theorem ReadsOff.ok {x : Getter E α} {view : WalkOutcome → DigStoreResult α} {t : List (Reading E)} {a : α}
    (h : ReadsOff U storeId x view) (hr : Runs x.run t (.ok a)) :
    ∃ w, Runs (walkOutcome U storeId).run t (.ok w) ∧ view w = .ok a := by
  obtain ⟨w, hw, ha⟩ := h t _ hr
  cases w with
  | error e => cases ha
  | ok w => exact ⟨w, hw, ha.symm⟩

theorem ReadsOff.call {x : Getter E α} {view : WalkOutcome → DigStoreResult α}
    (h : ReadsOff U storeId x view) (chain : ChainSource E) :
    chain.call x = (chain.call (walkOutcome U storeId)).bind view := by
  obtain ⟨w, hw, hr⟩ := h _ _ (runs_consult chain.answer x.run)
  have hc := hw.consult_eq (consult_answers chain.answer x.run)
  rw [ChainSource.call, ChainSource.consult, hr, ChainSource.call, ChainSource.consult, hc]

theorem ReadsOff.call_ok {x : Getter E α} {view : WalkOutcome → DigStoreResult α} {chain : ChainSource E}
    {a : α} (h : ReadsOff U storeId x view) (ha : chain.call x = .ok a) :
    ∃ w, chain.call (walkOutcome U storeId) = .ok w ∧ view w = .ok a := by
  have hr := runs_consult chain.answer x.run
  rw [ChainSource.call, ChainSource.consult] at ha
  rw [ha] at hr
  obtain ⟨w, hw, hv⟩ := h.ok hr
  have hc := hw.consult_eq (consult_answers chain.answer x.run)
  exact ⟨w, congrArg Outcome.result hc, hv⟩

theorem tipView_ok {w : WalkOutcome} {tip : Datastore} (h : tipView storeId w = .ok tip) :
    ∃ roots, w = .live roots tip := by
  cases w with
  | notFound | melted roots => cases h
  | live roots tip' =>
      cases h
      exact ⟨roots, rfl⟩

theorem tip_call {chain : ChainSource E} {tip : Datastore}
    (h : chain.call (getStoreSingletonTip U storeId) = .ok tip) :
    ∃ roots, chain.call (walkOutcome U storeId) = .ok (.live roots tip) := by
  obtain ⟨w, hw, hv⟩ := tip_readsOff.call_ok h
  obtain ⟨roots, rfl⟩ := tipView_ok hv
  exact ⟨roots, hw⟩

end DigStore.Getters
