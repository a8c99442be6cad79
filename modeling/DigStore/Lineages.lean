import DigStore.FailClosed
import DigStore.Library.Trail

namespace DigStore.Lineages

open Library.Dialogue Library.Trail Store Walk FailClosed

variable {U : Upstream} {E : Type} {chain : ChainSource E} {storeId : Bytes32} {n : Nat}

/-- The spend answered for the store id launches `d` as a generation of the store. -/
def Launches (U : Upstream) (chain : ChainSource E) (storeId : Bytes32) (d : Datastore) : Prop :=
  ∃ s, chain.coinSpend storeId = .ok (some s) ∧ U.coinId s.coin = storeId ∧
    U.hydrate s = .ok d ∧ d.info.launcherId = storeId

def Recreates (U : Upstream) (chain : ChainSource E) (d d' : Datastore) : Prop :=
  ∃ s, chain.coinSpend (U.coinId d.coin) = .ok (some s) ∧ U.coinId s.coin = U.coinId d.coin ∧
    U.hydrate s = .ok d'

def Unspent (U : Upstream) (chain : ChainSource E) (d : Datastore) : Prop :=
  chain.coinSpend (U.coinId d.coin) = .ok none

def Melts (U : Upstream) (chain : ChainSource E) (d : Datastore) : Prop :=
  ∃ s, chain.coinSpend (U.coinId d.coin) = .ok (some s) ∧ U.coinId s.coin = U.coinId d.coin ∧
    U.hydrate s = .error .missingLineage

/-- `ds` are consecutive generations of the store, beginning with the first. -/
structure Generations (U : Upstream) (chain : ChainSource E) (storeId : Bytes32)
    (ds : List Datastore) : Prop where
  launched : ∃ d ∈ ds.head?, Launches U chain storeId d
  recreated : ds.IsChain (Recreates U chain)

/-- The store has exactly the generations `ds` and the last one is unspent. -/
structure LiveAt (U : Upstream) (chain : ChainSource E) (storeId : Bytes32) (ds : List Datastore)
    (tip : Datastore) : Prop extends Generations U chain storeId ds where
  last_eq : ds.getLast? = some tip
  unspent : Unspent U chain tip

structure MeltedAt (U : Upstream) (chain : ChainSource E) (storeId : Bytes32) (ds : List Datastore)
    (last : Datastore) : Prop extends Generations U chain storeId ds where
  last_eq : ds.getLast? = some last
  melts : Melts U chain last

theorem launches_unique {d d' : Datastore} (h : Launches U chain storeId d)
    (h' : Launches U chain storeId d') : d = d' := by
  obtain ⟨s, hs, -, hd, -⟩ := h
  obtain ⟨s', hs', -, hd', -⟩ := h'
  rw [hs] at hs'
  cases hs'
  rw [hd] at hd'
  cases hd'
  rfl

theorem recreates_unique : Relator.RightUnique (Recreates U chain) := by
  rintro d d₁ d₂ ⟨s, hs, -, hd⟩ ⟨s', hs', -, hd'⟩
  rw [hs] at hs'
  cases hs'
  rw [hd] at hd'
  cases hd'
  rfl

theorem Unspent.final {d : Datastore} (h : Unspent U chain d) : Final (Recreates U chain) d := by
  rintro d' ⟨s, hs, -⟩
  rw [Unspent, hs] at h
  cases h

theorem Melts.final {d : Datastore} (h : Melts U chain d) : Final (Recreates U chain) d := by
  obtain ⟨s, hs, -, hm⟩ := h
  rintro d' ⟨s', hs', -, hd⟩
  rw [hs] at hs'
  cases hs'
  rw [hm] at hd
  cases hd

theorem faulty_final {d : Datastore} (h : FaultyHop U (U.coinId d.coin) (chain.coinSpend (U.coinId d.coin))) :
    Final (Recreates U chain) d := by
  rintro d' ⟨s, hs, hid, hd⟩
  rw [hs] at h
  rcases h with h | ⟨e, he, -⟩
  · exact h hid
  · rw [hd] at he
    cases he

theorem Generations.present {ds : List Datastore} (h : Generations U chain storeId ds) :
    chain.coinSpend storeId ≠ .ok none := by
  obtain ⟨d, -, s, hs, -⟩ := h.launched
  simp [hs]

theorem Generations.isPrefix {ds ds' : List Datastore} {last : Datastore}
    (h : Generations U chain storeId ds) (hlast : ds.getLast? = some last)
    (hf : Final (Recreates U chain) last) (h' : Generations U chain storeId ds') : ds' <+: ds := by
  obtain ⟨d, hd, hl⟩ := h.launched
  obtain ⟨d', hd', hl'⟩ := h'.launched
  obtain rfl := launches_unique hl hl'
  obtain ⟨rest, rfl⟩ := List.head?_eq_some_iff.mp hd
  obtain ⟨rest', rfl⟩ := List.head?_eq_some_iff.mp hd'
  apply isPrefix_of_final recreates_unique h.recreated _ h'.recreated
  intro b hb
  rw [hlast] at hb
  cases hb
  exact hf

theorem Generations.eq {ds ds' : List Datastore} {last last' : Datastore}
    (h : Generations U chain storeId ds) (hlast : ds.getLast? = some last)
    (hf : Final (Recreates U chain) last) (h' : Generations U chain storeId ds')
    (hlast' : ds'.getLast? = some last') (hf' : Final (Recreates U chain) last') :
    ds = ds' ∧ last = last' := by
  have he := (h'.isPrefix hlast' hf' h).eq_of_length_le (h.isPrefix hlast hf h').length_le
  subst he
  rw [hlast] at hlast'
  cases hlast'
  exact ⟨rfl, rfl⟩

theorem hops_recreates {t : List (Reading E)} {d last : Datastore} {ds : List Datastore}
    (h : Hops U d t ds last) (ht : ∀ e ∈ t, chain.answer e.1 = e.2) :
    ∃ rest, ds = d :: rest ∧ ds.IsChain (Recreates U chain) ∧ ds.getLast? = some last := by
  induction h with
  | here d => exact ⟨[], rfl, List.isChain_singleton d, rfl⟩
  | @hop d s child t ds last hs hc _ ih =>
      obtain ⟨rest, rfl, hchain, hlast⟩ := ih (fun e he => ht e (List.mem_cons_of_mem _ he))
      have ha : chain.coinSpend (U.coinId d.coin) = .ok (some s) := ht _ List.mem_cons_self
      refine ⟨child :: rest, rfl, List.isChain_cons_cons.mpr ⟨⟨s, ha, hs, hc⟩, hchain⟩, ?_⟩
      rw [List.getLast?_cons_cons, hlast]

theorem hops_launched {s : CoinSpend} {t : List (Reading E)} {d last : Datastore} {ds : List Datastore}
    (hops : Hops U d t ds last) (hs : U.coinId s.coin = storeId) (hd : U.hydrate s = .ok d)
    (hid : d.info.launcherId = storeId) (hq : chain.coinSpend storeId = .ok (some s))
    (ht : ∀ e ∈ t, chain.answer e.1 = e.2) :
    Generations U chain storeId ds ∧ ds.getLast? = some last := by
  obtain ⟨rest, rfl, hchain, hlast⟩ := hops_recreates hops ht
  exact ⟨⟨⟨d, rfl, s, hq, hs, hd, hid⟩, hchain⟩, hlast⟩

/-- What the outcome of a walk says about the source. -/
inductive Means (U : Upstream) (chain : ChainSource E) (storeId : Bytes32) (n : Nat) :
    DigStoreResult WalkOutcome → Prop
  | notFound (h : chain.coinSpend storeId = .ok none) : Means U chain storeId n (.ok .notFound)
  | live {ds tip} (h : LiveAt U chain storeId ds tip) (hcap : ds.length ≤ n) :
      Means U chain storeId n (.ok (.live (ds.map Datastore.root) tip))
  | melted {ds last} (h : MeltedAt U chain storeId ds last) (hcap : ds.length ≤ n) :
      Means U chain storeId n (.ok (.melted (ds.map Datastore.root)))
  | launcher (detail) (h : FaultyLauncher U storeId (chain.coinSpend storeId)) :
      Means U chain storeId n (.error (.proof detail))
  | faulty {ds last} (detail) (h : Generations U chain storeId ds) (hlast : ds.getLast? = some last)
      (ha : FaultyHop U (U.coinId last.coin) (chain.coinSpend (U.coinId last.coin))) :
      Means U chain storeId n (.error (.proof detail))
  | cap {ds} (detail) (h : Generations U chain storeId ds) (hcap : ds.length = n + 1) :
      Means U chain storeId n (.error (.proof detail))

theorem walks_means {t : List (Reading E)} {r : DigStoreResult WalkOutcome} (h : Walks U storeId n t r)
    (ht : ∀ e ∈ t, chain.answer e.1 = e.2) : Means U chain storeId n r := by
  cases h with
  | notFound => exact .notFound (ht _ List.mem_cons_self)
  | refused a detail ha =>
      have hq : chain.coinSpend storeId = a := ht _ List.mem_cons_self
      exact .launcher detail (hq ▸ ha)
  | @follows s d t₁ t₂ ds last r hs hd hid hops hstop =>
      have hq : chain.coinSpend storeId = .ok (some s) := ht _ List.mem_cons_self
      have ht₁ (e) (he : e ∈ t₁) : chain.answer e.1 = e.2 :=
        ht e (List.mem_cons_of_mem _ (List.mem_append_left _ he))
      have ht₂ (e) (he : e ∈ t₂) : chain.answer e.1 = e.2 :=
        ht e (List.mem_cons_of_mem _ (List.mem_append_right _ he))
      obtain ⟨hg, hlast⟩ := hops_launched hops hs hd hid hq ht₁
      cases hstop with
      | cap detail h => exact .cap detail hg (by simpa using h)
      | live h => exact .live ⟨hg, hlast, ht₂ _ List.mem_cons_self⟩ (by simpa using h)
      | melted s' h hs' hm =>
          exact .melted ⟨hg, hlast, s', ht₂ _ List.mem_cons_self, hs', hm⟩ (by simpa using h)
      | refused a detail h ha =>
          have hq' : chain.coinSpend (U.coinId last.coin) = a := ht₂ _ List.mem_cons_self
          exact .faulty detail hg hlast (hq' ▸ ha)

theorem call_means [ToString E] (chain : ChainSource E) (storeId : Bytes32) (n : Nat) :
    Means U chain storeId n (chain.call (walkOutcomeBounded U storeId n)) :=
  walks_means (walkOutcomeBounded_runs (runs_consult _ _)) (consult_answers _ _)

theorem Means.of_final {ds : List Datastore} {last : Datastore} {r : DigStoreResult WalkOutcome}
    (hr : Means U chain storeId n r) (h : Generations U chain storeId ds) (hlast : ds.getLast? = some last)
    (hf : Final (Recreates U chain) last) (hcap : ds.length ≤ n) :
    (Unspent U chain last ∧ r = .ok (.live (ds.map Datastore.root) last)) ∨
      (Melts U chain last ∧ r = .ok (.melted (ds.map Datastore.root))) ∨
      FaultyHop U (U.coinId last.coin) (chain.coinSpend (U.coinId last.coin)) := by
  cases hr with
  | notFound h' => exact absurd h' h.present
  | live h' hcap' =>
      obtain ⟨rfl, rfl⟩ := h.eq hlast hf h'.toGenerations h'.last_eq h'.unspent.final
      exact .inl ⟨h'.unspent, rfl⟩
  | melted h' hcap' =>
      obtain ⟨rfl, rfl⟩ := h.eq hlast hf h'.toGenerations h'.last_eq h'.melts.final
      exact .inr (.inl ⟨h'.melts, rfl⟩)
  | launcher detail h' =>
      obtain ⟨d, -, s, hs, hid, hd, hl⟩ := h.launched
      rw [hs] at h'
      rcases h' with h' | h'
      · exact absurd hid h'
      · exact absurd hl (h' d hd)
  | faulty detail h' hlast' ha =>
      obtain ⟨rfl, rfl⟩ := h.eq hlast hf h' hlast' (faulty_final ha)
      exact .inr (.inr ha)
  | cap detail h' hcap' =>
      have hle := (h.isPrefix hlast hf h').length_le
      omega

theorem unspent_not_faulty {d : Datastore} (h : Unspent U chain d) :
    ¬FaultyHop U (U.coinId d.coin) (chain.coinSpend (U.coinId d.coin)) := by
  rw [Unspent] at h
  rw [h]
  exact id

theorem melts_not_faulty {d : Datastore} (h : Melts U chain d) :
    ¬FaultyHop U (U.coinId d.coin) (chain.coinSpend (U.coinId d.coin)) := by
  obtain ⟨s, hs, hid, hm⟩ := h
  rw [hs]
  rintro (h | ⟨e, he, hne⟩)
  · exact h hid
  · rw [hm] at he
    cases he
    exact hne rfl

theorem unspent_not_melts {d : Datastore} (h : Unspent U chain d) : ¬Melts U chain d := by
  rintro ⟨s, hs, -⟩
  rw [h] at hs
  cases hs

section Call

variable [ToString E]

theorem LiveAt.call {ds : List Datastore} {tip : Datastore} (h : LiveAt U chain storeId ds tip)
    (hcap : ds.length ≤ n) :
    chain.call (walkOutcomeBounded U storeId n) = .ok (.live (ds.map Datastore.root) tip) := by
  rcases (call_means chain storeId n).of_final h.toGenerations h.last_eq h.unspent.final hcap with
    ⟨-, hr⟩ | ⟨hm, -⟩ | hf
  · exact hr
  · exact absurd hm (unspent_not_melts h.unspent)
  · exact absurd hf (unspent_not_faulty h.unspent)

theorem MeltedAt.call {ds : List Datastore} {last : Datastore} (h : MeltedAt U chain storeId ds last)
    (hcap : ds.length ≤ n) :
    chain.call (walkOutcomeBounded U storeId n) = .ok (.melted (ds.map Datastore.root)) := by
  rcases (call_means chain storeId n).of_final h.toGenerations h.last_eq h.melts.final hcap with
    ⟨hu, -⟩ | ⟨-, hr⟩ | hf
  · exact absurd h.melts (unspent_not_melts hu)
  · exact hr
  · exact absurd hf (melts_not_faulty h.melts)

theorem notFound_iff : chain.call (walkOutcomeBounded U storeId n) = .ok .notFound ↔
    chain.coinSpend storeId = .ok none := by
  have hm := call_means (U := U) chain storeId n
  constructor
  · intro hr
    rw [hr] at hm
    cases hm with
    | notFound h => exact h
  · intro h
    generalize chain.call (walkOutcomeBounded U storeId n) = r at hm
    cases hm with
    | notFound => rfl
    | live h' | melted h' => exact absurd h h'.present
    | faulty _ h' | cap _ h' => exact absurd h h'.present
    | launcher detail h' =>
        rw [h] at h'
        cases h'

theorem live_iff {roots : List Bytes32} {tip : Datastore} :
    chain.call (walkOutcomeBounded U storeId n) = .ok (.live roots tip) ↔
      ∃ ds, LiveAt U chain storeId ds tip ∧ ds.length ≤ n ∧ roots = ds.map Datastore.root := by
  constructor
  · intro hr
    have hm := call_means (U := U) chain storeId n
    rw [hr] at hm
    cases hm with
    | live h hcap => exact ⟨_, h, hcap, rfl⟩
  · rintro ⟨ds, h, hcap, rfl⟩
    exact h.call hcap

theorem melted_iff {roots : List Bytes32} :
    chain.call (walkOutcomeBounded U storeId n) = .ok (.melted roots) ↔
      ∃ ds last, MeltedAt U chain storeId ds last ∧ ds.length ≤ n ∧ roots = ds.map Datastore.root := by
  constructor
  · intro hr
    have hm := call_means (U := U) chain storeId n
    rw [hr] at hm
    cases hm with
    | melted h hcap => exact ⟨_, _, h, hcap, rfl⟩
  · rintro ⟨ds, last, h, hcap, rfl⟩
    exact h.call hcap

theorem error_iff : (∃ detail, chain.call (walkOutcomeBounded U storeId n) = .error (.proof detail)) ↔
    chain.coinSpend storeId ≠ .ok none ∧
      (¬∃ ds tip, LiveAt U chain storeId ds tip ∧ ds.length ≤ n) ∧
      ¬∃ ds last, MeltedAt U chain storeId ds last ∧ ds.length ≤ n := by
  constructor
  · rintro ⟨detail, hr⟩
    refine ⟨fun h => ?_, ?_, ?_⟩
    · rw [notFound_iff.mpr h] at hr
      cases hr
    · rintro ⟨ds, tip, h, hcap⟩
      rw [h.call hcap] at hr
      cases hr
    · rintro ⟨ds, last, h, hcap⟩
      rw [h.call hcap] at hr
      cases hr
  · rintro ⟨hn, hl, hm⟩
    have hr := call_means (U := U) chain storeId n
    generalize chain.call (walkOutcomeBounded U storeId n) = r at hr ⊢
    cases hr with
    | notFound h => exact absurd h hn
    | live h hcap => exact absurd ⟨_, _, h, hcap⟩ hl
    | melted h hcap => exact absurd ⟨_, _, h, hcap⟩ hm
    | launcher detail | faulty detail | cap detail => exact ⟨detail, rfl⟩

theorem over_cap {ds : List Datastore} (h : Generations U chain storeId ds) (hcap : n < ds.length) :
    ∃ detail, chain.call (walkOutcomeBounded U storeId n) = .error (.proof detail) := by
  apply error_iff.mpr
  refine ⟨h.present, ?_, ?_⟩
  · rintro ⟨ds', tip, h', hcap'⟩
    have hle := (h'.isPrefix h'.last_eq h'.unspent.final h).length_le
    omega
  · rintro ⟨ds', last, h', hcap'⟩
    have hle := (h'.isPrefix h'.last_eq h'.melts.final h).length_le
    omega

/-- The bounded walk returns exactly the lineage that the answers spell out. -/
theorem walk_refines_lineage (U : Upstream) (chain : ChainSource E) (storeId : Bytes32) (n : Nat) :
    (chain.call (walkOutcomeBounded U storeId n) = .ok .notFound ↔ chain.coinSpend storeId = .ok none) ∧
    (∀ roots tip, chain.call (walkOutcomeBounded U storeId n) = .ok (.live roots tip) ↔
      ∃ ds, LiveAt U chain storeId ds tip ∧ ds.length ≤ n ∧ roots = ds.map Datastore.root) ∧
    (∀ roots, chain.call (walkOutcomeBounded U storeId n) = .ok (.melted roots) ↔
      ∃ ds last, MeltedAt U chain storeId ds last ∧ ds.length ≤ n ∧ roots = ds.map Datastore.root) ∧
    ((∃ detail, chain.call (walkOutcomeBounded U storeId n) = .error (.proof detail)) ↔
      chain.coinSpend storeId ≠ .ok none ∧
        (¬∃ ds tip, LiveAt U chain storeId ds tip ∧ ds.length ≤ n) ∧
        ¬∃ ds last, MeltedAt U chain storeId ds last ∧ ds.length ≤ n) ∧
    (∀ ds, Generations U chain storeId ds → n < ds.length →
      ∃ detail, chain.call (walkOutcomeBounded U storeId n) = .error (.proof detail)) :=
  ⟨notFound_iff, fun _ _ => live_iff, fun _ => melted_iff, error_iff, fun _ => over_cap⟩

end Call

end DigStore.Lineages
