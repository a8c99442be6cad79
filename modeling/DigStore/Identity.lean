import DigStore.Agreement
import DigStore.Hashed

namespace DigStore.Identity

open Library.Dialogue Library.Trail Store Walk Getters Lineages Status Agreement FailClosed

variable {U : Upstream} {E σ : Type} {storeId : Bytes32} {n : Nat} {t : List (Reading E)}
  {srv : Server (Answer E) σ} {s s' : σ} {ds : List Datastore} {tip : Datastore} {chain : ChainSource E}

/-- `Spells U srv s coinId ds s'`: asked from the state `s` on for the spend of `coinId`,
and then for that of each child's coin in turn, the source answers with spends of
these coins, which hydrate to `ds`, and ends in the state `s'` at an unspent coin. -/
inductive Spells (U : Upstream) (srv : Server (Answer E) σ) : σ → Bytes32 → List Datastore → σ → Prop
  | unspent {s coinId} (h : (srv s (.coinSpend coinId)).1 = .ok none) :
      Spells U srv s coinId [] (srv s (.coinSpend coinId)).2
  | spent {s coinId spend d ds s'} (h : (srv s (.coinSpend coinId)).1 = .ok (some spend))
      (hs : U.coinId spend.coin = coinId) (hd : U.hydrate spend = .ok d)
      (hrest : Spells U srv (srv s (.coinSpend coinId)).2 (U.coinId d.coin) ds s') :
      Spells U srv s coinId (d :: ds) s'

/-- The source would spell out a live store of this id, with the generations `ds`. -/
structure SpellsLive (U : Upstream) (srv : Server (Answer E) σ) (s : σ) (storeId : Bytes32) (ds : List Datastore)
    (tip : Datastore) (s' : σ) : Prop where
  spells : Spells U srv s storeId ds s'
  launched : ∃ d ∈ ds.head?, d.info.launcherId = storeId
  last_eq : ds.getLast? = some tip

theorem hops_spells {d last : Datastore} {m : σ} {rest : List Datastore} (h : Hops U d t ds last)
    (hserve : Serves srv s t m) (hrest : Spells U srv m (U.coinId last.coin) rest s') :
    ∃ passed, ds = d :: passed ∧ Spells U srv s (U.coinId d.coin) (passed ++ rest) s' := by
  induction h generalizing s with
  | here d =>
      cases hserve
      exact ⟨[], rfl, hrest⟩
  | hop hs hc _ ih =>
      cases hserve with
      | cons ha hserve =>
          obtain ⟨passed, rfl, hspells⟩ := ih hserve hrest
          exact ⟨_, rfl, .spent ha hs hc hspells⟩

theorem spells_hops {d last : Datastore} {m : σ} {rest : List Datastore} (h : Hops U d t ds last)
    (hserve : Serves srv s t m) (hspells : Spells U srv s (U.coinId d.coin) rest s') :
    ∃ left, d :: rest = ds ++ left ∧ Spells U srv m (U.coinId last.coin) left s' := by
  induction h generalizing s rest with
  | here d =>
      cases hserve
      exact ⟨rest, rfl, hspells⟩
  | hop hs hc _ ih =>
      cases hserve with
      | cons ha hserve =>
          cases hspells with
          | unspent h => cases ha.symm.trans h
          | spent h _ hd hrest =>
              cases ha.symm.trans h
              cases hc.symm.trans hd
              obtain ⟨left, hleft, hspells⟩ := ih hserve hrest
              exact ⟨left, congrArg (List.cons _) hleft, hspells⟩

theorem walks_spells {roots : List Bytes32} (h : Walks U storeId n t (.ok (.live roots tip)))
    (hserve : Serves srv s t s') :
    SpellsLive U srv s storeId (generationsOf U t) tip s' ∧ (generationsOf U t).length ≤ n := by
  cases h with
  | @follows spend d t₁ t₂ ds last r hs hd hid hops hstop =>
      have hg := follows_generations storeId hd hops hstop
      obtain ⟨-, hlast⟩ := hops_generations hops
      cases hserve with
      | cons ha hserve =>
          obtain ⟨m, hpassed, hend⟩ := serves_append.mp hserve
          cases hstop with
          | live hcap =>
              rw [List.length_map] at hcap
              cases hend with
              | cons hu hend =>
                  cases hend
                  obtain ⟨passed, rfl, hspells⟩ := hops_spells hops hpassed (.unspent hu)
                  rw [List.append_nil] at hspells
                  rw [hg]
                  exact ⟨⟨.spent ha hs hd hspells, ⟨d, rfl, hid⟩, hlast⟩, hcap⟩

theorem SpellsLive.walks {m : σ} {r : DigStoreResult WalkOutcome} (h : SpellsLive U srv s storeId ds tip s')
    (hcap : ds.length ≤ n) (hw : Walks U storeId n t r) (hserve : Serves srv s t m) :
    r = .ok (.live (ds.map Datastore.root) tip) ∧ generationsOf U t = ds ∧ m = s' := by
  obtain ⟨hspells, ⟨d₀, hd₀, hid₀⟩, hlast₀⟩ := h
  obtain ⟨rest, rfl⟩ := List.head?_eq_some_iff.mp hd₀
  cases hspells with
  | @spent _ _ spend₀ _ _ _ hq hs₀ hc₀ hspells =>
      cases hw with
      | notFound =>
          cases hserve with
          | cons ha _ => cases ha.symm.trans hq
      | refused a detail hf =>
          cases hserve with
          | cons ha _ =>
              cases ha.symm.trans hq
              rcases hf with hf | hf
              · exact absurd hs₀ hf
              · exact absurd hid₀ (hf d₀ hc₀)
      | @follows spend d t₁ t₂ ds last r hs hd hid hops hstop =>
          cases hserve with
          | cons ha hserve =>
              cases ha.symm.trans hq
              cases hd.symm.trans hc₀
              obtain ⟨u, hpassed, hend⟩ := serves_append.mp hserve
              obtain ⟨left, hleft, hspells⟩ := spells_hops hops hpassed hspells
              have hlen := congrArg List.length hleft
              rw [List.length_append] at hlen
              cases hstop with
              | cap detail h =>
                  rw [List.length_map] at h
                  omega
              | live h =>
                  have hg := follows_generations storeId hd hops (.live h)
                  cases hend with
                  | cons hu hend =>
                      cases hend
                      cases hspells with
                      | spent h' => cases hu.symm.trans h'
                      | unspent h' =>
                          rw [List.append_nil] at hleft
                          subst hleft
                          obtain ⟨-, hlast⟩ := hops_generations hops
                          cases hlast.symm.trans hlast₀
                          exact ⟨rfl, hg, rfl⟩
              | melted spend' h hs' hm =>
                  cases hend with
                  | cons hu hend =>
                      cases hspells with
                      | unspent h' => cases hu.symm.trans h'
                      | spent h' _ hd' =>
                          cases hu.symm.trans h'
                          cases hm.symm.trans hd'
              | refused a detail h hf =>
                  cases hend with
                  | cons hu hend =>
                      cases hspells with
                      | unspent h' =>
                          cases hu.symm.trans h'
                          exact hf.elim
                      | spent h' hs' hd' =>
                          cases hu.symm.trans h'
                          rcases hf with hf | ⟨e, he, -⟩
                          · exact absurd hs' hf
                          · cases he.symm.trans hd'

def KeepsLauncher (d d' : Datastore) : Prop := d'.info.launcherId = d.info.launcherId

/-- Every generation that a call passed through is one of the store, the tip, with
which it ended, included. -/
structure Identified (U : Upstream) (storeId : Bytes32) (t : List (Reading E)) (tip : Datastore) : Prop where
  launcher_id : ∀ d ∈ generationsOf U t, d.info.launcherId = storeId
  last_eq : (generationsOf U t).getLast? = some tip

/-- The source's side of it: no live store of this id that it would spell out within
the cap changes the launcher id from one generation to the next. -/
def KeepsIdentity (U : Upstream) (srv : Server (Answer E) σ) (s : σ) (storeId : Bytes32) : Prop :=
  ∀ ds tip s', SpellsLive U srv s storeId ds tip s' → ds.length ≤ maxLineageGenerations → ds.IsChain KeepsLauncher

/-- The same of the stores for which the source goes on to give what a status needs. -/
def KeepsReported (U : Upstream) (srv : Server (Answer E) σ) (s : σ) (storeId : Bytes32) : Prop :=
  ∀ ds tip s' record peak, SpellsLive U srv s storeId ds tip s' → ds.length ≤ maxLineageGenerations →
    (srv s' (.coinRecord (U.coinId tip.coin))).1 = .ok record → record.any U.isSpent = false →
    (srv (srv s' (.coinRecord (U.coinId tip.coin))).2 .peakHeight).1 = .ok peak → ds.IsChain KeepsLauncher

/-- A walk compares the first of its generations, and no other, with the store id. -/
theorem SpellsLive.identified_iff (h : SpellsLive U srv s storeId (generationsOf U t) tip s') :
    Identified U storeId t tip ↔ (generationsOf U t).IsChain KeepsLauncher := by
  obtain ⟨d, hd, hid⟩ := h.launched
  obtain ⟨rest, hg⟩ := List.head?_eq_some_iff.mp hd
  have hkeeps : (generationsOf U t).IsChain KeepsLauncher ↔ ∀ d ∈ generationsOf U t, d.info.launcherId = storeId := by
    rw [hg, ← hid]
    exact isChain_constant fun d : Datastore => d.info.launcherId
  rw [hkeeps]
  exact ⟨fun hi => hi.launcher_id, fun hi => ⟨hi, h.last_eq⟩⟩

theorem identified_append {u : List (Reading E)} (hu : generationsOf U u = []) :
    Identified U storeId (t ++ u) tip ↔ Identified U storeId t tip := by
  have hg : generationsOf U (t ++ u) = generationsOf U t := by
    rw [generationsOf_append, hu, List.append_nil]
  constructor
  · rintro ⟨hid, hlast⟩
    exact ⟨hg ▸ hid, hg ▸ hlast⟩
  · rintro ⟨hid, hlast⟩
    exact ⟨hg ▸ hid, hg ▸ hlast⟩

theorem attests_generations {target : UInt32} {roots : List Bytes32} {r : DigStoreResult StoreStatus}
    (h : Attests U storeId target roots tip t r) : generationsOf U t = [] := by
  cases h <;> rfl

theorem attests_served {target : UInt32} {roots : List Bytes32} {r : DigStoreResult StoreStatus}
    {record : Option CoinRecord} {peak : Option UInt32} (h : Attests U storeId target roots tip t r)
    (hserve : Serves srv s t s') (hr : (srv s (.coinRecord (U.coinId tip.coin))).1 = .ok record)
    (hs : record.any U.isSpent = false)
    (hp : (srv (srv s (.coinRecord (U.coinId tip.coin))).2 .peakHeight).1 = .ok peak) :
    r = .ok (liveReport U storeId target roots tip record peak) := by
  cases h with
  | unread e detail =>
      cases hserve with
      | cons ha _ => cases ha.symm.trans hr
  | contradicted record' detail hs' =>
      cases hserve with
      | cons ha _ =>
          cases ha.symm.trans hr
          cases hs.symm.trans hs'
  | noPeak record' e detail _ =>
      cases hserve with
      | cons ha hserve =>
          cases hserve with
          | cons ha' _ => cases ha'.symm.trans hp
  | reported record' peak' _ =>
      cases hserve with
      | cons ha hserve =>
          cases hserve with
          | cons ha' _ =>
              cases ha.symm.trans hr
              cases ha'.symm.trans hp
              rfl

section Table

theorem spells_table {d : Datastore} {rest : List Datastore} {u : Unit} (hlast : (d :: rest).getLast? = some tip) :
    Spells U (fixed chain.answer) () (U.coinId d.coin) rest u ↔
      (d :: rest).IsChain (Recreates U chain) ∧ Unspent U chain tip := by
  induction rest generalizing d with
  | nil =>
      cases hlast
      constructor
      · intro h
        cases h with
        | unspent h => exact ⟨List.isChain_singleton _, h⟩
      · rintro ⟨-, h⟩
        exact .unspent h
  | cons c rest ih =>
      rw [List.getLast?_cons_cons] at hlast
      rw [List.isChain_cons_cons, and_assoc, ← ih hlast]
      constructor
      · intro h
        cases h with
        | spent h hs hd hrest => exact ⟨⟨_, h, hs, hd⟩, hrest⟩
      · rintro ⟨⟨spend, h, hs, hd⟩, hrest⟩
        exact .spent h hs hd hrest

theorem spellsLive_table {u : Unit} :
    SpellsLive U (fixed chain.answer) () storeId ds tip u ↔ LiveAt U chain storeId ds tip := by
  constructor
  · rintro ⟨hspells, ⟨d, hd, hid⟩, hlast⟩
    obtain ⟨rest, rfl⟩ := List.head?_eq_some_iff.mp hd
    cases hspells with
    | spent h hs hc hrest =>
        obtain ⟨hchain, hunspent⟩ := (spells_table hlast).mp hrest
        exact ⟨⟨⟨d, hd, _, h, hs, hc, hid⟩, hchain⟩, hlast, hunspent⟩
  · intro h
    obtain ⟨d, hd, spend, hq, hs, hc, hid⟩ := h.launched
    obtain ⟨rest, rfl⟩ := List.head?_eq_some_iff.mp hd
    exact ⟨.spent hq hs hc ((spells_table h.last_eq).mpr ⟨h.recreated, h.unspent⟩), ⟨d, hd, hid⟩, h.last_eq⟩

def LineageKept (U : Upstream) (chain : ChainSource E) (storeId : Bytes32) : Prop :=
  ∀ ds tip, LiveAt U chain storeId ds tip → ds.length ≤ maxLineageGenerations → ds.IsChain KeepsLauncher

def ReportedKept (U : Upstream) (chain : ChainSource E) (storeId : Bytes32) : Prop :=
  ∀ ds tip record peak, LiveAt U chain storeId ds tip → ds.length ≤ maxLineageGenerations →
    chain.coinRecord (U.coinId tip.coin) = .ok record → record.any U.isSpent = false →
    chain.peakHeight = .ok peak → ds.IsChain KeepsLauncher

theorem keepsIdentity_table : KeepsIdentity U (fixed chain.answer) () storeId ↔ LineageKept U chain storeId := by
  constructor
  · intro h ds tip hlive
    exact h ds tip () (spellsLive_table.mpr hlive)
  · intro h ds tip _ hspells
    exact h ds tip (spellsLive_table.mp hspells)

theorem keepsReported_table : KeepsReported U (fixed chain.answer) () storeId ↔ ReportedKept U chain storeId := by
  constructor
  · intro h ds tip record peak hlive
    exact h ds tip () record peak (spellsLive_table.mpr hlive)
  · intro h ds tip _ record peak hspells
    exact h ds tip record peak (spellsLive_table.mp hspells)

end Table

variable [ToString E]

def TipIdentified (U : Upstream) (srv : Server (Answer E) σ) (s : σ) (storeId : Bytes32) : Prop :=
  ∀ tip, (run srv s (getStoreSingletonTip U storeId).run).result = .ok tip →
    Identified U storeId (run srv s (getStoreSingletonTip U storeId).run).trace tip

def LatestRootIdentified (U : Upstream) (srv : Server (Answer E) σ) (s : σ) (storeId : Bytes32) : Prop :=
  ∀ root, (run srv s (getLatestRoot U storeId).run).result = .ok root →
    ∃ tip, tip.root = root ∧ Identified U storeId (run srv s (getLatestRoot U storeId).run).trace tip

def StatusIdentified (U : Upstream) (srv : Server (Answer E) σ) (s : σ) (storeId : Bytes32) (target : UInt32) :
    Prop :=
  ∀ st, (run srv s (getStoreStatus U storeId target).run).result = .ok st → st.status = .live →
    ∃ tip, st.coinId = some (toHex (U.coinId tip.coin)) ∧ st.liveRoot = some (toHex tip.root) ∧
      Identified U storeId (run srv s (getStoreStatus U storeId target).run).trace tip

theorem reads_identified_iff {α : Type} {x : Getter E α} {view : WalkOutcome → DigStoreResult α}
    {value : Datastore → α} (hx : ReadsOff U storeId x view)
    (hview : ∀ w, view w = (tipView storeId w).bind fun tip => .ok (value tip)) :
    (∀ a, (run srv s x.run).result = .ok a →
      ∃ tip, value tip = a ∧ Identified U storeId (run srv s x.run).trace tip) ↔ KeepsIdentity U srv s storeId := by
  obtain ⟨s', hserve⟩ := serves_run srv s x.run
  obtain ⟨w, hw, hr⟩ := hx _ _ (runs_run srv s x.run)
  generalize run srv s x.run = o at hserve hw hr ⊢
  obtain ⟨t, r⟩ := o
  have hwalks := walkOutcomeBounded_runs hw
  constructor
  · intro hi ds tip s'' h hcap
    obtain ⟨rfl, rfl, -⟩ := h.walks hcap hwalks hserve
    obtain ⟨_, _, hid⟩ := hi (value tip) (hr.trans (hview _))
    exact h.identified_iff.mp ⟨hid.launcher_id, h.last_eq⟩
  · rintro hk a rfl
    cases w with
    | error e => cases hr
    | ok w =>
        have hv := hr.trans (hview w)
        cases w with
        | notFound | melted roots => cases hv
        | live roots tip =>
            obtain ⟨h, hcap⟩ := walks_spells hwalks hserve
            exact ⟨tip, (Except.ok.inj hv).symm, h.identified_iff.mpr (hk _ _ _ h hcap)⟩

theorem tip_identified_iff : TipIdentified U srv s storeId ↔ KeepsIdentity U srv s storeId := by
  have hview (w : WalkOutcome) : tipView storeId w = (tipView storeId w).bind fun tip => .ok tip := by
    cases tipView storeId w <;> rfl
  rw [← reads_identified_iff tip_readsOff hview, TipIdentified]
  simp only [exists_eq_left]

theorem latestRoot_identified_iff : LatestRootIdentified U srv s storeId ↔ KeepsIdentity U srv s storeId :=
  reads_identified_iff latestRoot_readsOff fun _ => rfl

theorem status_identified_iff {target : UInt32} :
    StatusIdentified U srv s storeId target ↔ KeepsReported U srv s storeId := by
  unfold StatusIdentified
  obtain ⟨s', hserve⟩ := serves_run srv s (getStoreStatus (E := E) U storeId target).run
  have hrep := getStoreStatus_runs (runs_run srv s (getStoreStatus (E := E) U storeId target).run)
  generalize run srv s (getStoreStatus U storeId target).run = o at hserve hrep ⊢
  obtain ⟨t, r⟩ := o
  cases hrep with
  | failed hw | notFound hw | melted hw =>
      constructor
      · intro _ ds tip s'' record peak h hcap
        cases (h.walks hcap (walkOutcomeBounded_runs hw) hserve).1
      · intro _ st hst hlive
        cases hst <;> cases hlive
  | @live w u roots tip r hw ha =>
      obtain ⟨m, hwalked, hattested⟩ := serves_append.mp hserve
      have hwalks := walkOutcomeBounded_runs hw
      have hu := attests_generations ha
      constructor
      · intro hi ds tip' s'' record peak h hcap hr hs hp
        obtain ⟨he, rfl, rfl⟩ := h.walks hcap hwalks hwalked
        cases he
        obtain ⟨_, _, _, hid⟩ := hi _ (attests_served ha hattested hr hs hp) rfl
        have hid := (identified_append hu).mp hid
        exact h.identified_iff.mp ⟨hid.launcher_id, h.last_eq⟩
      · intro hk st hst _
        obtain ⟨h, hcap⟩ := walks_spells hwalks hwalked
        cases ha with
        | unread | contradicted | noPeak => cases hst
        | reported record peak hs =>
            cases hst
            cases hattested with
            | cons hr hattested =>
                cases hattested with
                | cons hp _ =>
                    have hkeeps := hk _ _ _ record peak h hcap hr hs hp
                    exact ⟨tip, rfl, rfl, (identified_append hu).mpr (h.identified_iff.mpr hkeeps)⟩

/-- A source's live answers pass through generations of the store only, exactly when
no live store that it would spell out changes the launcher id on the way. The code
itself compares the launcher's id only. -/
theorem identified_iff_keeps_launcher (srv : Server (Answer E) σ) (s : σ) (chain : ChainSource E) (storeId : Bytes32)
    (target : UInt32) :
    ((TipIdentified U srv s storeId ↔ KeepsIdentity U srv s storeId) ∧
      (LatestRootIdentified U srv s storeId ↔ KeepsIdentity U srv s storeId) ∧
      (StatusIdentified U srv s storeId target ↔ KeepsReported U srv s storeId)) ∧
    (TipIdentified U (fixed chain.answer) () storeId ↔ LineageKept U chain storeId) ∧
    (LatestRootIdentified U (fixed chain.answer) () storeId ↔ LineageKept U chain storeId) ∧
    (StatusIdentified U (fixed chain.answer) () storeId target ↔ ReportedKept U chain storeId) :=
  ⟨⟨tip_identified_iff, latestRoot_identified_iff, status_identified_iff⟩,
    tip_identified_iff.trans keepsIdentity_table, latestRoot_identified_iff.trans keepsIdentity_table,
    status_identified_iff.trans keepsReported_table⟩

section Forged

open Hashed

def launcher : Coin := ⟨Bytes32.fill 0xAA, treeHash launcherPuzzle, 1⟩

def otherStore : Bytes32 := Bytes32.fill 0x99

def forged : Datastore := forgedEve launcher otherStore (Bytes32.fill 0x11)

def foreign : Datastore := foreignTip launcher otherStore (Bytes32.fill 0x11) (Bytes32.fill 0x22)

def foreignRecord : CoinRecord := ⟨foreign.coin, some 12, none, none, false⟩

def source : ChainSource String :=
  forgedSource launcher otherStore (Bytes32.fill 0x11) (Bytes32.fill 0x22) [foreignRecord]

theorem hashes_differ :
    (coinId forged.coin ≠ coinId launcher ∧ coinId foreign.coin ≠ coinId launcher ∧
      coinId foreign.coin ≠ coinId forged.coin) ∧
      treeHash (storePuzzle otherStore (Bytes32.fill 0x11)) ≠ treeHash launcherPuzzle ∧
      otherStore ≠ coinId launcher := by
  decide +kernel

theorem forged_source : LiveAt upstream source (coinId launcher) [forged, foreign] foreign := by
  obtain ⟨⟨heve, htip, hne⟩, hpuzzle, -⟩ := hashes_differ
  exact forged_live _ rfl ⟨heve, htip, hne, hpuzzle⟩

theorem forged_lost : ¬[forged, foreign].IsChain KeepsLauncher := by
  obtain ⟨-, -, hother⟩ := hashes_differ
  intro h
  have hkeeps : KeepsLauncher forged foreign := List.isChain_pair.mp h
  exact hother hkeeps

theorem forged_record : source.coinRecord (upstream.coinId foreign.coin) = .ok (some foreignRecord) :=
  congrArg Except.ok (List.find?_cons_of_pos (decide_eq_true rfl))

/-- All three calls answer with the other store's tip, though every launcher and every
parent is read as it should be and every reveal is checked. -/
theorem forged_launcher_accepted :
    (∀ spend d, upstream.hydrate spend = .ok d → treeHash spend.puzzleReveal = spend.coin.puzzleHash ∧
      (spend.coin.puzzleHash = treeHash launcherPuzzle → d.info.launcherId = upstream.coinId spend.coin) ∧
      d.coin.parentCoinInfo = upstream.coinId spend.coin) ∧
    foreign.info.launcherId ≠ coinId launcher ∧
    source.call (getStoreSingletonTip upstream (coinId launcher)) = .ok foreign ∧
    source.call (getLatestRoot upstream (coinId launcher)) = .ok (Bytes32.fill 0x22) ∧
    (∃ st, source.call (getStoreStatus upstream (coinId launcher) 32) = .ok st ∧ st.status = .live ∧
      st.verified = true ∧ st.confirmations = some ⟨28, 32⟩) ∧
    ¬TipIdentified upstream (fixed source.answer) () (coinId launcher) ∧
    ¬LatestRootIdentified upstream (fixed source.answer) () (coinId launcher) ∧
    ¬StatusIdentified upstream (fixed source.answer) () (coinId launcher) 32 := by
  have hwalk : source.call (walkOutcome upstream (coinId launcher)) = .ok (.live _ foreign) :=
    forged_source.call (by decide)
  have hkept : ¬LineageKept upstream source (coinId launcher) :=
    fun h => forged_lost (h _ _ forged_source (by decide))
  have hreported : ¬ReportedKept upstream source (coinId launcher) :=
    fun h => forged_lost (h _ _ _ _ forged_source (by decide) forged_record rfl rfl)
  refine ⟨fun _ _ => hydrate_ok, hashes_differ.2.2, ?_, ?_, ?_, ?_, ?_, ?_⟩
  · rw [tip_readsOff.call, hwalk]
    rfl
  · rw [latestRoot_readsOff.call, hwalk]
    rfl
  · exact ⟨_, status_told.mpr (.live hwalk forged_record rfl rfl), rfl, rfl, rfl⟩
  · exact fun h => hkept (keepsIdentity_table.mp (tip_identified_iff.mp h))
  · exact fun h => hkept (keepsIdentity_table.mp (latestRoot_identified_iff.mp h))
  · exact fun h => hreported (keepsReported_table.mp (status_identified_iff.mp h))

end Forged

end DigStore.Identity
