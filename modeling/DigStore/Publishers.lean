import DigStore.Agreement
import DigStore.Simulator
import DigStore.World
import Mathlib.Logic.Relation

namespace DigStore.Publishers

open Library.Trail Store Walk Getters Lineages Agreement Lifecycle World

variable {U : Upstream} {B : SpendBuilders} {outputs : CoinSpend → List Coin} {P E : Type} {node : Node U E}
  {L : Ledger U} {bundle : List CoinSpend} {storeId : Bytes32} {log : StoreLog} {ds : List Datastore}
  {d d' last : Datastore}

section Accept

variable {ha : Ledger.Admits outputs L bundle} {hf : Ledger.Fresh outputs L bundle}

theorem source_spend {id : Bytes32} {s : CoinSpend} :
    (node.source L).coinSpend id = .ok (some s) ↔ L.spendOf id = some s := by
  rw [node.spend_eq]
  simp

theorem source_unspent : Unspent U (node.source L) d ↔ L.spendOf (U.coinId d.coin) = none := by
  rw [Unspent, node.spend_eq]
  simp

theorem launches_accept (h : Launches U (node.source L) storeId d) :
    Launches U (node.source (L.accept ha hf)) storeId d := by
  obtain ⟨s, hs, hid, hd, hl⟩ := h
  exact ⟨s, source_spend.mpr (Ledger.accept_keeps (source_spend.mp hs)), hid, hd, hl⟩

theorem recreates_accept (h : Recreates U (node.source L) d d') :
    Recreates U (node.source (L.accept ha hf)) d d' := by
  obtain ⟨s, hs, hid, hd⟩ := h
  exact ⟨s, source_spend.mpr (Ledger.accept_keeps (source_spend.mp hs)), hid, hd⟩

theorem melts_accept (h : Melts U (node.source L) d) : Melts U (node.source (L.accept ha hf)) d := by
  obtain ⟨s, hs, hid, hd⟩ := h
  exact ⟨s, source_spend.mpr (Ledger.accept_keeps (source_spend.mp hs)), hid, hd⟩

theorem generations_accept (h : Generations U (node.source L) storeId ds) :
    Generations U (node.source (L.accept ha hf)) storeId ds := by
  obtain ⟨d, hd, hl⟩ := h.launched
  exact ⟨⟨d, hd, launches_accept hl⟩, h.recreated.imp fun _ _ => recreates_accept⟩

end Accept

/-- The ledger holds the log `log` as the generations `ds`, up to `last`. -/
structure Holds (node : Node U E) (L : Ledger U) (storeId : Bytes32) (log : StoreLog) (ds : List Datastore)
    (last : Datastore) : Prop extends Generations U (node.source L) storeId ds where
  last_eq : ds.getLast? = some last
  roots : ds.map Datastore.root = log.roots
  created : log.roots.head? = some log.metadata.rootHash
  info : ∀ d ∈ ds, d.info = log.info storeId d.root
  coins : ∀ d ∈ ds, d.coin ∈ L.coins
  unspent : log.melted = false → Unspent U (node.source L) last
  melts : log.melted = true → Melts U (node.source L) last

theorem Holds.last_mem (h : Holds node L storeId log ds last) : last ∈ ds := List.mem_of_getLast? h.last_eq

theorem Holds.final (h : Holds node L storeId log ds last) : Final (Recreates U (node.source L)) last := by
  cases hm : log.melted with
  | false => exact (h.unspent hm).final
  | true => exact (h.melts hm).final

theorem Holds.launcherId (h : Holds node L storeId log ds last) (hd : d ∈ ds) : d.info.launcherId = storeId := by
  rw [h.info d hd]
  rfl

theorem Holds.hydrated (h : Holds node L storeId log ds last) (hd : d ∈ ds) : Hydrated U d := by
  obtain ⟨d₀, hd₀, s, -, -, hs, -⟩ := h.launched
  obtain ⟨rest, rfl⟩ := List.head?_eq_some_iff.mp hd₀
  have hrec := h.recreated
  clear hd₀ h
  induction rest generalizing d₀ s with
  | nil =>
      rw [List.mem_singleton.mp hd]
      exact ⟨s, hs⟩
  | cons d₁ rest ih =>
      obtain ⟨⟨s₁, -, -, hs₁⟩, hrec⟩ := List.isChain_cons_cons.mp hrec
      rcases List.mem_cons.mp hd with rfl | hd
      · exact ⟨s, hs⟩
      · exact ih d₁ s₁ hs₁ hd hrec

theorem Holds.current (h : Holds node L storeId log ds last) (hd : d ∈ ds)
    (hu : L.spendOf (U.coinId d.coin) = none) : d = last ∧ log.melted = false := by
  have hu : Unspent U (node.source L) d := source_unspent.mpr hu
  have hlast := getLast_of_final h.recreated hd hu.final
  rw [h.last_eq] at hlast
  cases hlast
  refine ⟨rfl, ?_⟩
  cases hm : log.melted with
  | false => rfl
  | true => exact absurd (h.melts hm) (unspent_not_melts hu)

theorem Holds.eq_generations (h : Holds node L storeId log ds last) {ds' : List Datastore} {tip : Datastore}
    (h' : LiveAt U (node.source L) storeId ds' tip) : ds = ds' ∧ last = tip :=
  h.toGenerations.eq h.last_eq h.final h'.toGenerations h'.last_eq h'.unspent.final

/-- A bundle that leaves the last generation's coin alone leaves the store alone. -/
theorem Holds.accept (h : Holds node L storeId log ds last) (ha : Ledger.Admits outputs L bundle)
    (hf : Ledger.Fresh outputs L bundle)
    (hb : ∀ s ∈ bundle, U.coinId s.coin ≠ U.coinId last.coin) :
    Holds node (L.accept ha hf) storeId log ds last where
  toGenerations := generations_accept h.toGenerations
  last_eq := h.last_eq
  roots := h.roots
  created := h.created
  info := h.info
  coins d hd := Ledger.accept_coins (h.coins d hd)
  unspent hm := source_unspent.mpr (Ledger.accept_unspent (source_unspent.mp (h.unspent hm)) hb)
  melts hm := melts_accept (h.melts hm)

variable {ha : Ledger.Admits outputs L bundle} {hf : Ledger.Fresh outputs L bundle}

theorem Holds.publish {s : CoinSpend} {child : Datastore} {root : Bytes32}
    (h : Holds node L storeId log ds last) (hopen : log.melted = false) (hbundle : bundle = [s])
    (hcoin : s.coin = last.coin) (hs : U.hydrate s = .ok child) (hout : child.coin ∈ outputs s)
    (hinfo : child.info = { last.info with metadata := { last.info.metadata with rootHash := root } }) :
    Holds node (L.accept ha hf) storeId (log.publish root) (ds ++ [child]) child := by
  subst hbundle
  have hroot : child.root = root := by rw [Datastore.root, hinfo]
  have hchild : child.coin ∈ [s].flatMap outputs := by simpa using hout
  have hne : U.coinId last.coin ≠ U.coinId child.coin := Ledger.fresh_output hf hchild (h.coins last h.last_mem)
  have hrec : Recreates U (node.source (L.accept ha hf)) last child := by
    refine ⟨s, source_spend.mpr ?_, by rw [hcoin], hs⟩
    rw [← hcoin]
    exact Ledger.accept_spent List.mem_cons_self
  have hgen : Generations U (node.source (L.accept ha hf)) storeId ds := generations_accept h.toGenerations
  refine ⟨⟨?_, ?_⟩, by simp, ?_, ?_, ?_, ?_, ?_, ?_⟩
  · obtain ⟨d, hd, hl⟩ := hgen.launched
    exact ⟨d, by rw [List.head?_append_of_ne_nil _ (by rintro rfl; cases hd)]; exact hd, hl⟩
  · apply hgen.recreated.append (List.isChain_singleton child)
    intro x hx y hy
    rw [h.last_eq] at hx
    cases hx
    cases hy
    exact hrec
  · rw [List.map_append, h.roots]
    exact congrArg (fun r => log.roots ++ [r]) hroot
  · change (log.roots ++ [root]).head? = _
    rw [List.head?_append, h.created]
    rfl
  · intro d hd
    rcases List.mem_append.mp hd with hd | hd
    · exact h.info d hd
    · rw [List.mem_singleton.mp hd, hinfo, h.info last h.last_mem, hroot]
      rfl
  · intro d hd
    rcases List.mem_append.mp hd with hd | hd
    · exact Ledger.accept_coins (h.coins d hd)
    · rw [List.mem_singleton.mp hd]
      exact Ledger.accept_output List.mem_cons_self hout
  · intro _
    apply source_unspent.mpr
    apply Ledger.accept_unspent (Ledger.fresh_unspent hf hchild)
    intro s' hs'
    rw [List.mem_singleton.mp hs', hcoin]
    exact hne
  · intro hm
    exact absurd (hopen.symm.trans hm) (by decide)

theorem Holds.close {s : CoinSpend} (h : Holds node L storeId log ds last) (hbundle : bundle = [s])
    (hcoin : s.coin = last.coin) (hs : U.hydrate s = .error .missingLineage) :
    Holds node (L.accept ha hf) storeId log.close ds last := by
  subst hbundle
  have hmelt : Melts U (node.source (L.accept ha hf)) last := by
    refine ⟨s, source_spend.mpr ?_, by rw [hcoin], hs⟩
    rw [← hcoin]
    exact Ledger.accept_spent List.mem_cons_self
  exact ⟨generations_accept h.toGenerations, h.last_eq, h.roots, h.created, h.info,
    fun d hd => Ledger.accept_coins (h.coins d hd), fun hm => absurd hm (by simp [StoreLog.close]), fun _ => hmelt⟩

theorem holds_launch {parent : Coin} {metadata : DigDataStoreMetadata} {ownerPuzzleHash : Bytes32}
    {built : MerkleCoinSpend} {funding launcher : CoinSpend} {child : Datastore}
    (h : Minted U outputs parent metadata ownerPuzzleHash [] built funding launcher child)
    (hp : parent ∈ L.coins) (ha : Ledger.Admits outputs L built.coinSpends)
    (hf : Ledger.Fresh outputs L built.coinSpends) :
    Holds node (L.accept ha hf) child.info.launcherId ⟨metadata, ownerPuzzleHash, [metadata.rootHash], false⟩
      [child] child := by
  have hfunding : funding ∈ built.coinSpends := (h.spends funding).mpr (.inl rfl)
  have hlauncher : launcher ∈ built.coinSpends := (h.spends launcher).mpr (.inr rfl)
  have hstore : child.info.launcherId = U.coinId launcher.coin := by rw [h.info]
  have hroot : child.root = metadata.rootHash := by rw [Datastore.root, h.info]
  have hcreated : child.coin ∈ built.coinSpends.flatMap outputs :=
    List.mem_flatMap.mpr ⟨launcher, hlauncher, h.created⟩
  have hlaunched : launcher.coin ∈ built.coinSpends.flatMap outputs :=
    List.mem_flatMap.mpr ⟨funding, hfunding, h.launched⟩
  have hne : funding ≠ launcher := by
    intro he
    apply Ledger.fresh_output hf hlaunched hp
    rw [← he, h.parent_eq]
  refine ⟨⟨⟨child, rfl, launcher, ?_, hstore.symm, h.hydrates, rfl⟩, List.isChain_singleton child⟩, rfl, ?_, rfl, ?_,
    ?_, ?_, fun hm => nomatch hm⟩
  · rw [hstore]
    exact source_spend.mpr (Ledger.accept_spent hlauncher)
  · exact congrArg (fun r => [r]) hroot
  · intro d hd
    rw [List.mem_singleton.mp hd, h.info, hroot]
    rfl
  · intro d hd
    rw [List.mem_singleton.mp hd]
    exact Ledger.accept_output hlauncher h.created
  · intro _
    apply source_unspent.mpr
    apply Ledger.accept_unspent (Ledger.fresh_unspent hf hcreated)
    intro s hs
    rcases (h.spends s).mp hs with rfl | rfl
    · rw [h.parent_eq]
      exact Ledger.fresh_output hf hcreated hp
    · exact Ledger.fresh_spends hf hfunding hlauncher hne h.launched h.created

section Invariant

variable {w w' : State U P} {gens : Bytes32 → List Datastore}

/-- The ledger holds every log as the generations `gens`, no two stores share a
coin, and every tip a publisher has read is one of these generations. -/
structure Inv (node : Node U E) (w : State U P) (gens : Bytes32 → List Datastore) : Prop where
  holds : ∀ storeId log, w.logs storeId = some log → ∃ last, Holds node w.ledger storeId log (gens storeId) last
  apart : ∀ a b, (w.logs a).isSome → (w.logs b).isSome → ∀ d ∈ gens a, ∀ d' ∈ gens b,
    U.coinId d.coin = U.coinId d'.coin → a = b
  tips : ∀ p, ∀ d ∈ w.tips p, (w.logs d.info.launcherId).isSome ∧ d ∈ gens d.info.launcherId

theorem Inv.holds_of_isSome (h : Inv node w gens) (hl : (w.logs storeId).isSome) :
    ∃ log last, w.logs storeId = some log ∧ Holds node w.ledger storeId log (gens storeId) last := by
  obtain ⟨log, hlog⟩ := Option.isSome_iff_exists.mp hl
  obtain ⟨last, hh⟩ := h.holds storeId log hlog
  exact ⟨log, last, hlog, hh⟩

theorem Holds.not_storeCoin (hh : Holds node w.ledger storeId log ds last) (hlog : w.logs storeId = some log)
    {coin : Coin} (hn : ¬StoreCoin node w coin) : U.coinId coin ≠ U.coinId last.coin := by
  intro he
  exact hn ⟨storeId, ds, last, by simp [hlog], hh.toGenerations, hh.last_mem, he.symm⟩

/-- One store moves on, by coins that are new to the ledger, and the bundle leaves
the tips of the others alone. -/
theorem Inv.advance (h : Inv node w gens) {ha : Ledger.Admits outputs w.ledger bundle}
    {hf : Ledger.Fresh outputs w.ledger bundle} {a : Bytes32}
    (hnew : Holds node (w.ledger.accept ha hf) a log ds last)
    (hkeep : (w.logs a).isSome → ∀ d ∈ gens a, d ∈ ds)
    (hold : ∀ d ∈ ds, ((w.logs a).isSome ∧ d ∈ gens a) ∨ ∀ c ∈ w.ledger.coins, U.coinId c ≠ U.coinId d.coin)
    (hothers : ∀ b log' last', b ≠ a → w.logs b = some log' → Holds node w.ledger b log' (gens b) last' →
      ∀ s ∈ bundle, U.coinId s.coin ≠ U.coinId last'.coin) :
    Inv node ⟨w.ledger.accept ha hf, w.tips, Function.update w.logs a (some log)⟩ (Function.update gens a ds) := by
  have hcross (b) (hb : b ≠ a) (hl : (w.logs b).isSome) (d) (hd : d ∈ ds) (d') (hd' : d' ∈ gens b) :
      U.coinId d.coin ≠ U.coinId d'.coin := by
    obtain ⟨log', last', -, hh⟩ := h.holds_of_isSome hl
    rcases hold d hd with ⟨hla, hda⟩ | hnone
    · exact fun he => hb (h.apart a b hla hl d hda d' hd' he).symm
    · exact (hnone d'.coin (hh.coins d' hd')).symm
  refine ⟨?_, ?_, ?_⟩
  -- The store that moved holds its new log, and the others still hold theirs.
  · intro b log' (hlog : Function.update w.logs a (some log) b = some log')
    by_cases hb : b = a
    · subst hb
      rw [Function.update_self] at hlog ⊢
      cases hlog
      exact ⟨last, hnew⟩
    · rw [Function.update_of_ne hb] at hlog ⊢
      obtain ⟨last', hh⟩ := h.holds b log' hlog
      exact ⟨last', hh.accept ha hf (hothers b log' last' hb hlog hh)⟩
  -- A coin of the store that moved is an old one of its own or new to the ledger.
  · intro b c (hlb : (Function.update w.logs a (some log) b).isSome)
      (hlc : (Function.update w.logs a (some log) c).isSome) d hd d' hd' he
    by_cases hb : b = a <;> by_cases hc : c = a
    · rw [hb, hc]
    · subst hb
      rw [Function.update_self] at hd
      rw [Function.update_of_ne hc] at hlc hd'
      exact absurd he (hcross c hc hlc d hd d' hd')
    · subst hc
      rw [Function.update_self] at hd'
      rw [Function.update_of_ne hb] at hlb hd
      exact absurd he.symm (hcross b hb hlb d' hd' d hd)
    · rw [Function.update_of_ne hb] at hlb hd
      rw [Function.update_of_ne hc] at hlc hd'
      exact h.apart b c hlb hlc d hd d' hd' he
  · intro p d hd
    obtain ⟨hl, hmem⟩ := h.tips p d hd
    change (Function.update w.logs a (some log) d.info.launcherId).isSome ∧
      d ∈ Function.update gens a ds d.info.launcherId
    by_cases hb : d.info.launcherId = a
    · subst hb
      rw [Function.update_self, Function.update_self]
      exact ⟨rfl, hkeep hl d hmem⟩
    · rw [Function.update_of_ne hb, Function.update_of_ne hb]
      exact ⟨hl, hmem⟩

theorem Inv.hydrated (h : Inv node w gens) {p : P} {tip : Datastore} (ht : tip ∈ w.tips p) : Hydrated U tip := by
  obtain ⟨hl, hmem⟩ := h.tips p tip ht
  obtain ⟨_, _, -, hh⟩ := h.holds_of_isSome hl
  exact hh.hydrated hmem

theorem Inv.admitted (h : Inv node w gens) {p : P} {tip : Datastore} (ht : tip ∈ w.tips p)
    (ha : Ledger.Admits outputs w.ledger bundle) {s : CoinSpend} (hbundle : bundle = [s])
    (hcoin : s.coin = tip.coin) :
    ∃ log, w.logs tip.info.launcherId = some log ∧ log.melted = false ∧
      Holds node w.ledger tip.info.launcherId log (gens tip.info.launcherId) tip := by
  obtain ⟨hl, hmem⟩ := h.tips p tip ht
  obtain ⟨log, last, hlog, hh⟩ := h.holds_of_isSome hl
  have hu : w.ledger.spendOf (U.coinId tip.coin) = none := by
    rw [← hcoin]
    exact ha.unspent s (by simp [hbundle])
  obtain ⟨rfl, hopen⟩ := hh.current hmem hu
  exact ⟨log, hlog, hopen, hh⟩

theorem Inv.others_apart (h : Inv node w gens) {p : P} {tip last' : Datastore} {log' : StoreLog} {b : Bytes32}
    (ht : tip ∈ w.tips p) {s : CoinSpend} (hbundle : bundle = [s]) (hcoin : s.coin = tip.coin)
    (hb : b ≠ tip.info.launcherId) (hlog : w.logs b = some log')
    (hh : Holds node w.ledger b log' (gens b) last') : ∀ s' ∈ bundle, U.coinId s'.coin ≠ U.coinId last'.coin := by
  obtain ⟨hl, hmem⟩ := h.tips p tip ht
  intro s' hs' he
  rw [hbundle] at hs'
  rw [List.mem_singleton.mp hs', hcoin] at he
  exact hb (h.apart _ b hl (by simp [hlog]) tip hmem last' hh.last_mem he).symm

theorem Inv.create (h : Inv node w gens) {parent : Coin} {metadata : DigDataStoreMetadata}
    {ownerPuzzleHash : Bytes32} {built : MerkleCoinSpend} {funding launcher : CoinSpend} {child : Datastore}
    (hm : Minted U outputs parent metadata ownerPuzzleHash [] built funding launcher child)
    (hp : parent ∈ w.ledger.coins) (ho : ¬StoreCoin node w parent)
    (ha : Ledger.Admits outputs w.ledger built.coinSpends) (hf : Ledger.Fresh outputs w.ledger built.coinSpends) :
    Inv node ⟨w.ledger.accept ha hf, w.tips, Function.update w.logs child.info.launcherId
      (some ⟨metadata, ownerPuzzleHash, [metadata.rootHash], false⟩)⟩
      (Function.update gens child.info.launcherId [child]) := by
  have hlaunched : launcher.coin ∈ built.coinSpends.flatMap outputs :=
    List.mem_flatMap.mpr ⟨funding, (hm.spends funding).mpr (.inl rfl), hm.launched⟩
  have hcreated : child.coin ∈ built.coinSpends.flatMap outputs :=
    List.mem_flatMap.mpr ⟨launcher, (hm.spends launcher).mpr (.inr rfl), hm.created⟩
  apply h.advance (holds_launch hm hp ha hf)
  · intro hl
    -- The launcher is a new coin, so no store has its id yet.
    obtain ⟨log, last, -, hh⟩ := h.holds_of_isSome hl
    obtain ⟨d, -, s, hs, hid, -⟩ := hh.launched
    have hne := Ledger.fresh_output hf hlaunched (Ledger.spendOf_coin (source_spend.mp hs))
    rw [hid, hm.info] at hne
    exact absurd rfl hne
  · intro d hd
    rw [List.mem_singleton.mp hd]
    exact .inr fun c hc => Ledger.fresh_output hf hcreated hc
  · intro b log' last' hb hlog hh s hs
    rcases (hm.spends s).mp hs with rfl | rfl
    · rw [hm.parent_eq]
      exact hh.not_storeCoin hlog ho
    · exact (Ledger.fresh_output hf hlaunched (hh.coins last' hh.last_mem)).symm

theorem Inv.modify (hB : MerkleContract U B outputs) (h : Inv node w gens) {p : P} {tip : Datastore}
    {owner : StoreOwner} {newRoot : Bytes32} {built : MerkleCoinSpend} (ht : tip ∈ w.tips p)
    (hb : modifyStore U B tip owner newRoot = .ok built)
    (ha : Ledger.Admits outputs w.ledger built.coinSpends) (hf : Ledger.Fresh outputs w.ledger built.coinSpends) :
    ∃ child, Inv node ⟨w.ledger.accept ha hf, w.tips, Function.update w.logs tip.info.launcherId
        ((w.logs tip.info.launcherId).map (·.publish newRoot))⟩
      (Function.update gens tip.info.launcherId (gens tip.info.launcherId ++ [child])) := by
  obtain ⟨s, child, hspends, hcoin, hs, hinfo, hout⟩ :=
    hB.updateRoot tip _ _ built (h.hydrated ht) (modifyStore_ok hb)
  obtain ⟨log, hlog, hopen, hh⟩ := h.admitted ht ha hspends hcoin
  have hcreated : child.coin ∈ built.coinSpends.flatMap outputs :=
    List.mem_flatMap.mpr ⟨s, by simp [hspends], hout⟩
  refine ⟨child, ?_⟩
  rw [hlog, Option.map_some]
  apply h.advance (hh.publish hopen hspends hcoin hs hout hinfo)
  · exact fun _ d hd => List.mem_append_left _ hd
  · intro d hd
    rcases List.mem_append.mp hd with hd | hd
    · exact .inl ⟨(h.tips p tip ht).1, hd⟩
    · rw [List.mem_singleton.mp hd]
      exact .inr fun c hc => Ledger.fresh_output hf hcreated hc
  · intro b log' last' hne hlog' hh'
    exact h.others_apart ht hspends hcoin hne hlog' hh'

theorem Inv.melt (hB : MerkleContract U B outputs) (h : Inv node w gens) {p : P} {tip : Datastore}
    {owner : StoreOwner} {built : MerkleCoinSpend} (ht : tip ∈ w.tips p)
    (hb : meltStore U B tip owner = .ok built)
    (ha : Ledger.Admits outputs w.ledger built.coinSpends) (hf : Ledger.Fresh outputs w.ledger built.coinSpends) :
    Inv node ⟨w.ledger.accept ha hf, w.tips, Function.update w.logs tip.info.launcherId
        ((w.logs tip.info.launcherId).map (·.close))⟩
      (Function.update gens tip.info.launcherId (gens tip.info.launcherId)) := by
  obtain ⟨s, hspends, hcoin, hs⟩ := hB.melt tip _ built (h.hydrated ht) (meltStore_ok hb)
  obtain ⟨log, hlog, hopen, hh⟩ := h.admitted ht ha hspends hcoin
  rw [hlog, Option.map_some]
  apply h.advance (hh.close hspends hcoin hs)
  · exact fun _ d hd => hd
  · exact fun d hd => .inl ⟨(h.tips p tip ht).1, hd⟩
  · intro b log' last' hne hlog' hh'
    exact h.others_apart ht hspends hcoin hne hlog' hh'

theorem Inv.other (h : Inv node w gens) (ho : ∀ s ∈ bundle, ¬StoreCoin node w s.coin)
    (ha : Ledger.Admits outputs w.ledger bundle) (hf : Ledger.Fresh outputs w.ledger bundle) :
    Inv node ⟨w.ledger.accept ha hf, w.tips, w.logs⟩ gens := by
  refine ⟨?_, h.apart, h.tips⟩
  intro b log hlog
  obtain ⟨last, hh⟩ := h.holds b log hlog
  exact ⟨last, hh.accept ha hf fun s hs => hh.not_storeCoin hlog (ho s hs)⟩

variable [DecidableEq P] [ToString E]

theorem Holds.tip_eq (hh : Holds node L storeId log ds last) {tip : Datastore}
    (hr : (node.source L).call (getStoreSingletonTip U storeId) = .ok tip) : tip = last ∧ log.melted = false := by
  obtain ⟨roots, hw⟩ := tip_call hr
  obtain ⟨ds', hlive, -⟩ := live_iff.mp hw
  obtain ⟨rfl, rfl⟩ := hh.eq_generations hlive
  exact hh.current hh.last_mem (source_unspent.mp hlive.unspent)

theorem Inv.read (h : Inv node w gens) {p : P} {tip : Datastore} (hl : (w.logs storeId).isSome)
    (hr : (node.source w.ledger).call (getStoreSingletonTip U storeId) = .ok tip) :
    Inv node ⟨w.ledger, Function.update w.tips p (tip :: w.tips p), w.logs⟩ gens := by
  obtain ⟨log, last, -, hh⟩ := h.holds_of_isSome hl
  obtain ⟨rfl, -⟩ := hh.tip_eq hr
  have hnew : (w.logs tip.info.launcherId).isSome ∧ tip ∈ gens tip.info.launcherId := by
    rw [hh.launcherId hh.last_mem]
    exact ⟨hl, hh.last_mem⟩
  refine ⟨h.holds, h.apart, ?_⟩
  intro q d (hd : d ∈ Function.update w.tips p (tip :: w.tips p) q)
  by_cases hq : q = p
  · subst hq
    rw [Function.update_self] at hd
    rcases List.mem_cons.mp hd with rfl | hd
    · exact hnew
    · exact h.tips q d hd
  · rw [Function.update_of_ne hq] at hd
    exact h.tips q d hd

theorem Inv.step (hB : MerkleContract U B outputs) (h : Inv node w gens) (hs : Step B outputs node w w') :
    ∃ gens', Inv node w' gens' := by
  cases hs with
  | create hb hc hp ho ha hf =>
      obtain ⟨funding, launcher, child', hm⟩ := hB.mint _ _ _ _ _ _ _ _ _ _ _ _ _ (createStore_ok hb)
      cases hm.child_eq.symm.trans hc
      exact ⟨_, h.create hm hp ho ha hf⟩
  | read p hl hr => exact ⟨_, h.read hl hr⟩
  | modify p ht hb ha hf =>
      obtain ⟨child, h'⟩ := h.modify hB ht hb ha hf
      exact ⟨_, h'⟩
  | melt p ht hb ha hf => exact ⟨_, h.melt hB ht hb ha hf⟩
  | other ho ha hf => exact ⟨_, h.other ho ha hf⟩
  | refused ha => exact ⟨_, h⟩

/-- The worlds that publishers can bring about, from any ledger on which no store
has been created yet. -/
def Reachable (B : SpendBuilders) (outputs : CoinSpend → List Coin) (node : Node U E) (w : State U P) : Prop :=
  ∃ L : Ledger U, Relation.ReflTransGen (Step B outputs node) ⟨L, fun _ => [], fun _ => none⟩ w

theorem reachable_inv (hB : MerkleContract U B outputs) (h : Reachable B outputs node w) :
    ∃ gens, Inv node w gens := by
  obtain ⟨L, h⟩ := h
  induction h with
  | refl =>
      refine ⟨fun _ => [], ?_, ?_, ?_⟩
      · intro storeId log hlog
        cases hlog
      · intro a b ha
        cases ha
      · intro p d hd
        cases hd
  | tail _ hs ih =>
      obtain ⟨gens, hi⟩ := ih
      exact hi.step hB hs

structure ReadsBack (B : SpendBuilders) (outputs : CoinSpend → List Coin) (node : Node U E) (w : State U P)
    (storeId : Bytes32) (log : StoreLog) : Prop where
  created : log.roots.head? = some log.metadata.rootHash
  history : (node.source w.ledger).call (getRootHistory U storeId) = .ok ⟨log.roots⟩
  live : log.melted = false → ∃ tip root, log.roots.getLast? = some root ∧ tip.info = log.info storeId root ∧
    (node.source w.ledger).call (getStoreSingletonTip U storeId) = .ok tip ∧
    (node.source w.ledger).call (getLatestRoot U storeId) = .ok root ∧
    (node.source w.ledger).call (getStoreLabel U storeId) = .ok log.metadata.label ∧
    (node.source w.ledger).call (getStoreDescription U storeId) = .ok log.metadata.description ∧
    (node.source w.ledger).call (getStoreSizeBucket U storeId) = .ok log.metadata.sizeBucket ∧
    (node.source w.ledger).call (getStoreProgramHash U storeId) = .ok log.metadata.programHash
  melted : log.melted = true →
    ∃ detail, (node.source w.ledger).call (getStoreSingletonTip U storeId) = .error (.proof detail)
  status : ∀ target st, (node.source w.ledger).call (getStoreStatus U storeId target) = .ok st →
    st.generationCount = log.roots.length ∧ st.status = if log.melted then .melted else .live
  status_melted : log.melted = true → ∀ target, (node.source w.ledger).call (getStoreStatus U storeId target) =
    .ok (closedStatus .melted storeId log.roots.length)
  status_live : log.melted = false → ∀ target tip record peak,
    (node.source w.ledger).call (getStoreSingletonTip U storeId) = .ok tip →
    (node.source w.ledger).coinRecord (U.coinId tip.coin) = .ok record → record.any U.isSpent = false →
    (node.source w.ledger).peakHeight = .ok peak → (node.source w.ledger).call (getStoreStatus U storeId target) =
      .ok (liveReport U storeId target log.roots tip record peak)
  modify_admitted : ∀ p, ∀ tip ∈ w.tips p, tip.info.launcherId = storeId → ∀ owner newRoot built,
    modifyStore U B tip owner newRoot = .ok built → (Ledger.Admits outputs w.ledger built.coinSpends ↔
      (node.source w.ledger).call (getStoreSingletonTip U storeId) = .ok tip)
  melt_admitted : ∀ p, ∀ tip ∈ w.tips p, tip.info.launcherId = storeId → ∀ owner built,
    meltStore U B tip owner = .ok built → (Ledger.Admits outputs w.ledger built.coinSpends ↔
      (node.source w.ledger).call (getStoreSingletonTip U storeId) = .ok tip)

omit [DecidableEq P] in
theorem Holds.walk (hh : Holds node L storeId log ds last) (hcap : log.roots.length ≤ maxLineageGenerations) :
    (node.source L).call (walkOutcome U storeId) =
      .ok (if log.melted then .melted log.roots else .live log.roots last) := by
  have hlen : ds.length ≤ maxLineageGenerations := by
    rw [← hh.roots, List.length_map] at hcap
    exact hcap
  cases hm : log.melted with
  | false =>
      have hlive : LiveAt U (node.source L) storeId ds last := ⟨hh.toGenerations, hh.last_eq, hh.unspent hm⟩
      rw [← hh.roots]
      exact hlive.call hlen
  | true =>
      have hmelted : MeltedAt U (node.source L) storeId ds last := ⟨hh.toGenerations, hh.last_eq, hh.melts hm⟩
      rw [← hh.roots]
      exact hmelted.call hlen

omit [DecidableEq P] in
/-- A single spend of a generation's coin is admitted exactly when that generation
is the tip that is read. -/
theorem Holds.admits_iff (hh : Holds node L storeId log ds last)
    (hcap : log.roots.length ≤ maxLineageGenerations) {tip : Datastore} (ht : tip ∈ ds) {s : CoinSpend}
    (hcoin : s.coin = tip.coin) :
    Ledger.Admits outputs L [s] ↔ (node.source L).call (getStoreSingletonTip U storeId) = .ok tip := by
  constructor
  · intro ha
    have hu := ha.unspent s List.mem_cons_self
    rw [hcoin] at hu
    obtain ⟨rfl, hopen⟩ := hh.current ht hu
    rw [tip_readsOff.call, hh.walk hcap, hopen]
    rfl
  · intro hr
    obtain ⟨rfl, hopen⟩ := hh.tip_eq hr
    refine ⟨List.nodup_singleton _, ?_, ?_⟩
    · intro s' hs'
      rw [List.mem_singleton.mp hs', hcoin]
      exact List.mem_append_left _ (hh.coins tip ht)
    · intro s' hs'
      rw [List.mem_singleton.mp hs', hcoin]
      exact source_unspent.mp (hh.unspent hopen)

omit [DecidableEq P] in
theorem Holds.call (hh : Holds node L storeId log ds last) (hcap : log.roots.length ≤ maxLineageGenerations)
    {α : Type} {x : Getter E α} {view : WalkOutcome → DigStoreResult α} (hx : ReadsOff U storeId x view) :
    (node.source L).call x = view (if log.melted then .melted log.roots else .live log.roots last) := by
  rw [hx.call, hh.walk hcap]
  rfl

omit [DecidableEq P] in
theorem Holds.tipMetadata_call (hh : Holds node L storeId log ds last)
    (hcap : log.roots.length ≤ maxLineageGenerations) (hopen : log.melted = false) {α : Type}
    (field : DigDataStoreMetadata → α) :
    (node.source L).call (tipMetadata U field storeId) =
      .ok (field { log.metadata with rootHash := last.root }) := by
  rw [hh.call hcap (tipMetadata_readsOff field), hopen]
  change Except.ok (field last.info.metadata) = _
  rw [hh.info last hh.last_mem]
  rfl

/-- Whatever the interleaving, every store reads back as what was accepted of it. -/
theorem lifecycle_agrees (hB : MerkleContract U B outputs) (hw : Reachable B outputs node w)
    (hlog : w.logs storeId = some log) (hcap : log.roots.length ≤ maxLineageGenerations) :
    ReadsBack B outputs node w storeId log := by
  obtain ⟨gens, hi⟩ := reachable_inv hB hw
  obtain ⟨last, hh⟩ := hi.holds storeId log hlog
  have hgen (p tip) (ht : tip ∈ w.tips p) (hid : tip.info.launcherId = storeId) : tip ∈ gens storeId := by
    rw [← hid]
    exact (hi.tips p tip ht).2
  have hwalk := hh.walk hcap
  refine ⟨hh.created, ?_, ?_, ?_, ?_, ?_, ?_, ?_, ?_⟩
  · rw [hh.call hcap history_readsOff]
    cases log.melted <;> rfl
  · intro hopen
    have hlast : log.roots.getLast? = some last.root := by
      rw [← hh.roots, List.getLast?_map, hh.last_eq]
      rfl
    have hfield {α : Type} (field : DigDataStoreMetadata → α) := hh.tipMetadata_call hcap hopen field
    refine ⟨last, last.root, hlast, hh.info last hh.last_mem, ?_, hfield (·.rootHash), hfield (·.label),
      hfield (·.description), hfield (·.sizeBucket), hfield (·.programHash)⟩
    rw [hh.call hcap tip_readsOff, hopen]
    rfl
  · intro hm
    rw [hh.call hcap tip_readsOff, hm]
    exact ⟨_, rfl⟩
  · intro target st hst
    obtain ⟨o, ho, hkind, hcount⟩ := status_walk hst
    cases hwalk.symm.trans ho
    rw [hkind, hcount]
    cases log.melted <;> exact ⟨rfl, rfl⟩
  · intro hm target
    rw [hm] at hwalk
    exact status_told.mpr (.melted hwalk)
  · intro hopen target tip record peak htip hr hs hp
    obtain ⟨rfl, -⟩ := hh.tip_eq htip
    rw [hopen] at hwalk
    exact status_told.mpr (.live hwalk hr hs hp)
  · intro p tip ht hid owner newRoot built hb
    have hmem := hgen p tip ht hid
    obtain ⟨s, child, hspends, hcoin, -⟩ := hB.updateRoot tip _ _ built (hi.hydrated ht) (modifyStore_ok hb)
    rw [hspends]
    exact hh.admits_iff hcap hmem hcoin
  · intro p tip ht hid owner built hb
    have hmem := hgen p tip ht hid
    obtain ⟨s, hspends, hcoin, -⟩ := hB.melt tip _ built (hi.hydrated ht) (meltStore_ok hb)
    rw [hspends]
    exact hh.admits_iff hcap hmem hcoin

end Invariant

theorem simulator_contract : MerkleContract Simulator.upstream Simulator.builders Simulator.outputs where
  mint kind parent owner rootHash label description sizeProof programHash sizeBucket ownerPuzzleHash
      delegatedPuzzles fee built h := by
    dsimp only [Simulator.builders] at h
    obtain ⟨child, hs, hinfo, rfl⟩ := Simulator.checked_ok h
    exact ⟨_, _, child, by simp, rfl, Simulator.outputs_fund _ _ _, rfl, hs, hinfo,
      Simulator.outputs_child (by simp [Simulator.launchOf, Simulator.encode]) hs⟩
  updateRoot store owner metadata built _ h := by
    dsimp only [Simulator.builders] at h
    obtain ⟨child, hs, hinfo, rfl⟩ := Simulator.checked_ok h
    exact ⟨_, child, rfl, rfl, hs, hinfo,
      Simulator.outputs_child (by simp [Simulator.updateOf, Simulator.encode]) hs⟩
  melt store owner built _ h := by
    cases h
    exact ⟨_, rfl, rfl, rfl⟩

def simulatorNode : Node Simulator.upstream String where
  source L := Simulator.chain L.spends []
  spend_eq _ _ := rfl

def genesis : Ledger Simulator.upstream where
  coins := [⟨Bytes32.fill 0xEE, Simulator.owner, 0⟩, ⟨Bytes32.fill 0xEE, Simulator.owner, 100⟩]
  spends := []
  unique := by decide +kernel
  once := List.nodup_nil
  exist := by simp

def funding : CoinSpend := Simulator.fund ⟨Bytes32.fill 0xEE, Simulator.owner, 0⟩ Simulator.owner

theorem launch_admitted : Ledger.Admits Simulator.outputs genesis [funding, Simulator.launch] := by decide +kernel

theorem launch_fresh : Ledger.Fresh Simulator.outputs genesis [funding, Simulator.launch] := by
  unfold Ledger.Fresh
  decide +kernel

def launchedLedger : Ledger Simulator.upstream := genesis.accept launch_admitted launch_fresh

theorem update_admitted : Ledger.Admits Simulator.outputs launchedLedger [Simulator.update] := by decide +kernel

theorem update_fresh : Ledger.Fresh Simulator.outputs launchedLedger [Simulator.update] := by
  unfold Ledger.Fresh
  decide +kernel

def params : CreateStoreParams := ⟨Bytes32.fill 0x11, ⟨7, Simulator.seven_le⟩, none, none, none, 0⟩

def key : StoreOwner := .standard ⟨List.replicate 48 0, List.length_replicate⟩

def launched : State Simulator.upstream ℕ where
  ledger := launchedLedger
  tips _ := []
  logs := Function.update (fun _ => none) Simulator.storeId
    (some ⟨params.metadata, Simulator.owner, [params.rootHash], false⟩)

/-- Two publishers have read the first generation. -/
def readTwice : State Simulator.upstream ℕ :=
  { launched with tips := Function.update (Function.update launched.tips 0 [Simulator.eve]) 1 [Simulator.eve] }

/-- The first of them has updated the store, which leaves the other with a stale tip. -/
def raced : State Simulator.upstream ℕ where
  ledger := launchedLedger.accept update_admitted update_fresh
  tips := readTwice.tips
  logs := Function.update readTwice.logs Simulator.storeId
    ((readTwice.logs Simulator.storeId).map (·.publish (Bytes32.fill 0x22)))

theorem readTwice_reachable : Reachable Simulator.builders Simulator.outputs simulatorNode readTwice := by
  have hcreate : createStore Simulator.upstream Simulator.builders ⟨Bytes32.fill 0xEE, Simulator.owner, 0⟩ key
      Simulator.owner params = .ok ⟨[funding, Simulator.launch], some Simulator.eve⟩ := by decide +kernel
  have hread : (simulatorNode.source launched.ledger).call
      (getStoreSingletonTip Simulator.upstream Simulator.storeId) = .ok Simulator.eve := by decide +kernel
  have hlaunch : Step Simulator.builders Simulator.outputs simulatorNode
      ⟨genesis, fun _ => [], fun _ => none⟩ launched := by
    refine .create hcreate rfl List.mem_cons_self ?_ launch_admitted launch_fresh
    rintro ⟨_, _, _, hl, -⟩
    cases hl
  have hfirst : Step Simulator.builders Simulator.outputs simulatorNode launched
      { launched with tips := Function.update launched.tips 0 [Simulator.eve] } := .read 0 rfl hread
  have hsecond : Step Simulator.builders Simulator.outputs simulatorNode
      { launched with tips := Function.update launched.tips 0 [Simulator.eve] } readTwice := .read 1 rfl hread
  exact ⟨genesis, ((Relation.ReflTransGen.single hlaunch).tail hfirst).tail hsecond⟩

theorem raced_step : Step Simulator.builders Simulator.outputs simulatorNode readTwice raced := by
  have hmodify : modifyStore Simulator.upstream Simulator.builders Simulator.eve key (Bytes32.fill 0x22) =
      .ok ⟨[Simulator.update], some Simulator.updated⟩ := by decide +kernel
  exact .modify 0 (List.mem_singleton_self _) hmodify update_admitted update_fresh

theorem raced_reachable : Reachable Simulator.builders Simulator.outputs simulatorNode raced := by
  obtain ⟨L, h⟩ := readTwice_reachable
  exact ⟨L, h.tail raced_step⟩

theorem lifecycle_agrees_raced :
    ReadsBack Simulator.builders Simulator.outputs simulatorNode raced Simulator.storeId
      ⟨params.metadata, Simulator.owner, [Bytes32.fill 0x11, Bytes32.fill 0x22], false⟩ :=
  lifecycle_agrees simulator_contract raced_reachable rfl (by decide)

end DigStore.Publishers
