import DigStore.AppendOnly
import Mathlib.Order.Hom.Basic

namespace DigStore.Snapshot

open Library.Dialogue Store Walk Status AppendOnly

variable {U : Upstream} {T E α : Type} [Preorder T] {storeId : Bytes32} {n : Nat} {target : UInt32}
  {t : List (Reading E)}

/-- A chain over time, without reorganisation: a spend once present stays. -/
structure Evolution (T E : Type) [Preorder T] where
  spends : T → Bytes32 → Option CoinSpend
  records : T → Bytes32 → Except E (Option CoinRecord)
  peak : T → Except E (Option UInt32)
  grows : ∀ {a b : T} {id : Bytes32} {s : CoinSpend}, a ≤ b → spends a id = some s → spends b id = some s

def Evolution.at (chain : Evolution T E) (a : T) : ChainSource E where
  coinSpend id := .ok (chain.spends a id)
  coinRecord := chain.records a
  peakHeight := chain.peak a

/-- A call whose reads are made at the times `τ 0 ≤ τ 1 ≤ ...`. -/
def Evolution.during (chain : Evolution T E) (τ : ℕ →o T) (g : Getter E α) :
    Outcome (Answer E) (DigStoreResult α) :=
  run (timed fun i => (chain.at (τ i)).answer) 0 g.run

/-- A present record is spent exactly when the coin's spend is present. -/
def Evolution.RecordsAgree (U : Upstream) (chain : Evolution T E) : Prop :=
  ∀ a id r, chain.records a id = .ok (some r) → (U.isSpent r = true ↔ (chain.spends a id).isSome)

def ReadAlong (chain : Evolution T E) (τ : ℕ →o T) (t : List (Reading E)) : Prop :=
  ∀ k e, t[k]? = some e → (chain.at (τ k)).answer e.1 = e.2

theorem during_runs (chain : Evolution T E) (τ : ℕ →o T) (g : Getter E α) :
    Runs g.run (chain.during τ g).trace (chain.during τ g).result :=
  runs_run _ _ _

theorem during_readAlong (chain : Evolution T E) (τ : ℕ →o T) (g : Getter E α) :
    ReadAlong chain τ (chain.during τ g).trace := by
  intro k e h
  have hk := timed_answers (fun i => (chain.at (τ i)).answer) 0 g.run h
  rwa [Nat.zero_add] at hk

def Spent (e : Reading E) : Prop := ∃ id s, e = ⟨.coinSpend id, .ok (some s)⟩

theorem hops_spent {d last : Datastore} {ds : List Datastore} (h : Hops U d t ds last) : ∀ e ∈ t, Spent e := by
  induction h with
  | here => simp
  | @hop d s _ _ _ _ hs hc _ ih =>
      intro e he
      rcases List.mem_cons.mp he with rfl | he
      · exact ⟨_, s, rfl⟩
      · exact ih e he

theorem walks_spent {r : DigStoreResult WalkOutcome} (h : Walks U storeId n t r) :
    ∀ e ∈ t.dropLast, Spent e := by
  cases h with
  | notFound | refused => simp
  | @follows s d t₁ t₂ ds last r hs hd hid hops hstop =>
      have hall : ∀ e ∈ (⟨.coinSpend storeId, .ok (some s)⟩ :: t₁ : List (Reading E)), Spent e := by
        intro e he
        rcases List.mem_cons.mp he with rfl | he
        · exact ⟨_, s, rfl⟩
        · exact hops_spent hops e he
      intro e he
      rw [← List.cons_append] at he
      cases hstop with
      | cap =>
          rw [List.append_nil] at he
          exact hall e (List.dropLast_subset _ he)
      | live | melted | refused =>
          rw [List.dropLast_concat] at he
          exact hall e he

theorem walks_length {r : DigStoreResult WalkOutcome} (h : Walks U storeId n t r) :
    ∃ last, t.length = last + 1 := by
  cases h with
  | notFound | refused => exact ⟨0, rfl⟩
  | follows => exact ⟨_, rfl⟩

variable {chain : Evolution T E} {τ : ℕ →o T}

theorem ReadAlong.initial {u : List (Reading E)} (h : ReadAlong chain τ (t ++ u)) : ReadAlong chain τ t := by
  intro k e hk
  exact h k e ((List.getElem?_append_left (List.getElem?_eq_some_iff.mp hk).1).trans hk)

theorem ReadAlong.persists (h : ReadAlong chain τ t) {k j : ℕ} {e : Reading E} (hk : t[k]? = some e)
    (he : Spent e) (hkj : k ≤ j) : (chain.at (τ j)).answer e.1 = e.2 := by
  have ha := h k e hk
  obtain ⟨id, s, rfl⟩ := he
  have hs : chain.spends (τ k) id = some s := Except.ok.inj ha
  exact congrArg Except.ok (chain.grows (τ.monotone hkj) hs)

theorem ReadAlong.at_last {r : DigStoreResult WalkOutcome} (h : ReadAlong chain τ t)
    (hw : Walks U storeId n t r) {last : ℕ} (hlast : t.length = last + 1) :
    ∀ e ∈ t, (chain.at (τ last)).answer e.1 = e.2 := by
  intro e he
  obtain ⟨k, hk⟩ := List.getElem?_of_mem he
  have hlt := (List.getElem?_eq_some_iff.mp hk).1
  by_cases hkl : k = last
  · subst hkl
    exact h k e hk
  -- A reading before the last was answered with a spend, and that stays.
  · have hdrop : t.dropLast[k]? = some e := by
      rw [List.getElem?_dropLast, if_pos (by omega)]
      exact hk
    exact h.persists hk (walks_spent hw e (List.mem_of_getElem? hdrop)) (by omega)

theorem record_read {w u : List (Reading E)} {e : Reading E} (ht : ReadAlong chain τ (w ++ e :: u)) :
    (w ++ e :: u)[w.length]? = some e ∧ (chain.at (τ w.length)).answer e.1 = e.2 := by
  have hi : (w ++ e :: u)[w.length]? = some e := by simp
  exact ⟨hi, ht _ _ hi⟩

variable [ToString E]

/-- A walk whose reads are spread over time is one made at its last read. -/
theorem walk_atomic (chain : Evolution T E) (τ : ℕ →o T) :
    ∃ last, (chain.during τ (walkOutcomeBounded U storeId n)).trace.length = last + 1 ∧
      (chain.during τ (walkOutcomeBounded U storeId n)).result =
        (chain.at (τ last)).call (walkOutcomeBounded U storeId n) := by
  have hrun := during_runs chain τ (walkOutcomeBounded U storeId n)
  have hwalk := walkOutcomeBounded_runs hrun
  obtain ⟨last, hlast⟩ := walks_length hwalk
  have hall := (during_readAlong chain τ _).at_last hwalk hlast
  exact ⟨last, hlast, (congrArg Outcome.result (hrun.consult_eq hall)).symm⟩

theorem live_again {j : ℕ} {roots : List Bytes32} {tip : Datastore}
    (hw : Runs (walkOutcome U storeId).run t (.ok (.live roots tip))) (ht : ReadAlong chain τ t)
    (hj : t.length ≤ j) (htip : chain.spends (τ j) (U.coinId tip.coin) = none) :
    (chain.at (τ j)).call (walkOutcome U storeId) = .ok (.live roots tip) := by
  have hrep : Repeats (chain.at (τ j)) t := by
    intro id s hs
    obtain ⟨k, hk⟩ := List.getElem?_of_mem hs
    have hlt := (List.getElem?_eq_some_iff.mp hk).1
    exact ht.persists hk ⟨id, s, rfl⟩ (by omega)
  have hall := (live_repeats (walkOutcomeBounded_runs hw) hrep).2 (congrArg Except.ok htip)
  exact congrArg Outcome.result (hw.consult_eq hall)

structure Shows (U : Upstream) (st : StoreStatus) (roots : List Bytes32) (tip : Datastore) : Prop where
  live_root : st.liveRoot = some (toHex tip.root)
  owner : st.ownerPuzzleHash = some (toHex tip.info.ownerPuzzleHash)
  program_hash : st.programHash = tip.info.metadata.programHash.map toHex
  coin_id : st.coinId = some (toHex (U.coinId tip.coin))
  generation_count : st.generationCount = roots.length

theorem status_atomic (hrec : chain.RecordsAgree U) {st : StoreStatus}
    (hst : (chain.during τ (getStoreStatus U storeId target)).result = .ok st)
    (hlive : st.status = .live) (hv : st.verified = true) :
    ∃ i a roots tip,
      (chain.during τ (getStoreStatus U storeId target)).trace[i]? =
        some ⟨.coinRecord (U.coinId tip.coin), a⟩ ∧
      (chain.at (τ i)).call (walkOutcome U storeId) = .ok (.live roots tip) ∧ Shows U st roots tip := by
  have hrep := getStoreStatus_runs (during_runs chain τ (getStoreStatus U storeId target))
  have ht := during_readAlong chain τ (getStoreStatus U storeId target)
  rw [hst] at hrep
  generalize (chain.during τ (getStoreStatus U storeId target)).trace = t at hrep ht ⊢
  cases hrep with
  | notFound | melted => cases hlive
  | @live w u roots tip _ hw ha =>
      cases ha with
      | reported record peak hs =>
          obtain ⟨hi, hrecord⟩ := record_read ht
          obtain ⟨r, rfl, hr⟩ := Agreement.liveReport_verified.mp hv
          have hnone : ¬(chain.spends (τ w.length) (U.coinId tip.coin)).isSome := by
            rw [← hrec _ _ _ hrecord, hr]
            simp
          refine ⟨w.length, _, roots, tip, hi, ?_, ⟨rfl, rfl, rfl, rfl, rfl⟩⟩
          exact live_again hw ht.initial le_rfl (by simpa using hnone)

theorem status_contradicted (hrec : chain.RecordsAgree U) {roots : List Bytes32} {tip : Datastore} {i : ℕ}
    {r : CoinRecord} (hw : (chain.during τ (walkOutcome U storeId)).result = .ok (.live roots tip))
    (hi : (chain.during τ (walkOutcome U storeId)).trace.length = i)
    (hr : chain.records (τ i) (U.coinId tip.coin) = .ok (some r))
    (hs : (chain.spends (τ i) (U.coinId tip.coin)).isSome) :
    ∃ detail, (chain.during τ (getStoreStatus U storeId target)).result = .error (.proof detail) := by
  have hrep : Reports U storeId target (fun t w => chain.during τ (walkOutcome U storeId) = ⟨t, w⟩)
      (chain.during τ (getStoreStatus U storeId target)).trace
      (chain.during τ (getStoreStatus U storeId target)).result := status_run U storeId target _ 0
  have ht := during_readAlong chain τ (getStoreStatus U storeId target)
  have hspent : U.isSpent r = true := (hrec _ _ _ hr).mpr hs
  generalize chain.during τ (getStoreStatus U storeId target) = o at hrep ht ⊢
  obtain ⟨t, result⟩ := o
  cases hrep with
  | failed hw' | notFound hw' | melted hw' =>
      rw [hw'] at hw
      cases hw
  | live hw' ha =>
      rw [hw'] at hw hi
      subst hi
      cases hw
      cases ha with
      | unread e detail => exact ⟨detail, rfl⟩
      | contradicted record detail h => exact ⟨detail, rfl⟩
      | noPeak record e detail h => exact ⟨detail, rfl⟩
      | reported record peak h =>
          obtain ⟨-, hrecord⟩ := record_read ht
          cases hr.symm.trans hrecord
          cases h.symm.trans hspent

/-- On a chain that grows while it is read, a walk is never torn, and a verified
live status is that of one moment. -/
theorem no_torn_snapshot (U : Upstream) (chain : Evolution T E) (τ : ℕ →o T) (storeId : Bytes32) (n : Nat)
    (target : UInt32) :
    (∃ last, (chain.during τ (walkOutcomeBounded U storeId n)).trace.length = last + 1 ∧
      (chain.during τ (walkOutcomeBounded U storeId n)).result =
        (chain.at (τ last)).call (walkOutcomeBounded U storeId n)) ∧
    (chain.RecordsAgree U →
      (∀ st, (chain.during τ (getStoreStatus U storeId target)).result = .ok st → st.status = .live →
        st.verified = true → ∃ i a roots tip,
          (chain.during τ (getStoreStatus U storeId target)).trace[i]? =
            some ⟨.coinRecord (U.coinId tip.coin), a⟩ ∧
          (chain.at (τ i)).call (walkOutcome U storeId) = .ok (.live roots tip) ∧ Shows U st roots tip) ∧
      (∀ roots tip r, (chain.during τ (walkOutcome U storeId)).result = .ok (.live roots tip) →
        chain.records (τ (chain.during τ (walkOutcome U storeId)).trace.length) (U.coinId tip.coin) =
          .ok (some r) →
        (chain.spends (τ (chain.during τ (walkOutcome U storeId)).trace.length) (U.coinId tip.coin)).isSome →
        ∃ detail, (chain.during τ (getStoreStatus U storeId target)).result = .error (.proof detail))) :=
  ⟨walk_atomic chain τ, fun hrec => ⟨fun _ => status_atomic hrec,
    fun _ _ _ hw => status_contradicted hrec hw rfl⟩⟩

def simulated : Evolution ℕ String where
  spends a id := ([Simulator.launch, Simulator.update, Simulator.melt].take a).find?
    fun spend => Simulator.coinId spend.coin = id
  records a id := .ok (if id = Simulator.coinId Simulator.updated.coin then
    some { Simulator.tipRecord with spentHeight := if a < 3 then none else some 13 } else none)
  peak _ := .ok (some 40)
  grows hab h := (List.take_prefix_take_left hab).find?_eq_some h

theorem simulated_recordsAgree : simulated.RecordsAgree Simulator.upstream := by
  intro a id r h
  by_cases hid : id = Simulator.coinId Simulator.updated.coin
  · subst hid
    cases h
    match a with
    | 0 | 1 | 2 => decide
    | a + 3 => simp [simulated, Simulator.upstream]; decide
  · simp [simulated, hid] at h

def readTimes : ℕ →o ℕ where
  toFun i := min (i + 1) 2
  monotone' := fun i j h => by simp only; omega

theorem no_torn_snapshot_updated :
    simulated.RecordsAgree Simulator.upstream ∧ ∃ st,
      (simulated.during readTimes (getStoreStatus Simulator.upstream Simulator.storeId 32)).result = .ok st ∧
      ∃ i a roots tip,
        (simulated.during readTimes (getStoreStatus Simulator.upstream Simulator.storeId 32)).trace[i]? =
          some ⟨.coinRecord (Simulator.coinId tip.coin), a⟩ ∧
        (simulated.at (readTimes i)).call (walkOutcome Simulator.upstream Simulator.storeId) =
          .ok (.live roots tip) ∧ Shows Simulator.upstream st roots tip := by
  refine ⟨simulated_recordsAgree, liveReport Simulator.upstream Simulator.storeId 32
    [Bytes32.fill 0x11, Bytes32.fill 0x22] Simulator.updated (some Simulator.tipRecord) (some 40), ?_, ?_⟩
  · decide +kernel
  · exact ((no_torn_snapshot Simulator.upstream simulated readTimes Simulator.storeId 2 32).2
      simulated_recordsAgree).1 _ (by decide +kernel) rfl (by decide)

end DigStore.Snapshot
