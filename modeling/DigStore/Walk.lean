import DigStore.Store

namespace DigStore.Walk

open Library.Dialogue Store

variable {U : Upstream} {E : Type}

def Refused (U : Upstream) (coinId : Bytes32) : Except E (Option CoinSpend) → Prop
  | .error _ => True
  | .ok none => False
  | .ok (some s) => U.coinId s.coin ≠ coinId

def FaultyLauncher (U : Upstream) (storeId : Bytes32) : Except E (Option CoinSpend) → Prop
  | .error _ => True
  | .ok none => False
  | .ok (some s) => U.coinId s.coin ≠ storeId ∨ ∀ d, U.hydrate s = .ok d → d.info.launcherId ≠ storeId

/-- The answers to a later read from which no generation can be read. Here, and
only here, a missing lineage is a melt and no fault. -/
def FaultyHop (U : Upstream) (coinId : Bytes32) : Except E (Option CoinSpend) → Prop
  | .error _ => True
  | .ok none => False
  | .ok (some s) => U.coinId s.coin ≠ coinId ∨ ∃ e, U.hydrate s = .error e ∧ e ≠ .missingLineage

theorem Refused.launcher {storeId : Bytes32} {a : Except E (Option CoinSpend)}
    (h : Refused U storeId a) : FaultyLauncher U storeId a := by
  cases a with
  | error e => trivial
  | ok a =>
      cases a with
      | none => exact h
      | some s => exact .inl h

theorem Refused.hop {coinId : Bytes32} {a : Except E (Option CoinSpend)}
    (h : Refused U coinId a) : FaultyHop U coinId a := by
  cases a with
  | error e => trivial
  | ok a =>
      cases a with
      | none => exact h
      | some s => exact .inl h

inductive Verified (U : Upstream) (coinId : Bytes32) :
    Except E (Option CoinSpend) → DigStoreResult (Option CoinSpend) → Prop
  | refused (a) (detail) (h : Refused U coinId a) : Verified U coinId a (.error (.proof detail))
  | absent : Verified U coinId (.ok none) (.ok none)
  | spend (s) (h : U.coinId s.coin = coinId) : Verified U coinId (.ok (some s)) (.ok (some s))

/-- `Hops U d t ds last`: the readings `t` lead the walk from the generation `d`
to `last` through the generations `ds`, both ends included. -/
inductive Hops (U : Upstream) : Datastore → List (Reading E) → List Datastore → Datastore → Prop
  | here (d) : Hops U d [] [d] d
  | hop {d s child t ds last} (hs : U.coinId s.coin = U.coinId d.coin)
      (hc : U.hydrate s = .ok child) (h : Hops U child t ds last) :
      Hops U d (⟨.coinSpend (U.coinId d.coin), .ok (some s)⟩ :: t) (d :: ds) last

/-- The four ways the loop ends at the generation `last`. The list `roots` has
the root of `last` already, which the loop pushes only below the cap. -/
inductive Stops (U : Upstream) (n : Nat) (last : Datastore) (roots : List Bytes32) :
    List (Reading E) → DigStoreResult WalkOutcome → Prop
  | cap (detail) (h : roots.length = n + 1) : Stops U n last roots [] (.error (.proof detail))
  | live (h : roots.length ≤ n) :
      Stops U n last roots [⟨.coinSpend (U.coinId last.coin), .ok none⟩] (.ok (.live roots last))
  | melted (s) (h : roots.length ≤ n) (hs : U.coinId s.coin = U.coinId last.coin)
      (hm : U.hydrate s = .error .missingLineage) :
      Stops U n last roots [⟨.coinSpend (U.coinId last.coin), .ok (some s)⟩] (.ok (.melted roots))
  | refused (a) (detail) (h : roots.length ≤ n) (ha : FaultyHop U (U.coinId last.coin) a) :
      Stops U n last roots [⟨.coinSpend (U.coinId last.coin), a⟩] (.error (.proof detail))

inductive Walks (U : Upstream) (storeId : Bytes32) (n : Nat) :
    List (Reading E) → DigStoreResult WalkOutcome → Prop
  | notFound : Walks U storeId n [⟨.coinSpend storeId, .ok none⟩] (.ok .notFound)
  | refused (a) (detail) (ha : FaultyLauncher U storeId a) :
      Walks U storeId n [⟨.coinSpend storeId, a⟩] (.error (.proof detail))
  | follows {s d t₁ t₂ ds last r} (hs : U.coinId s.coin = storeId) (hd : U.hydrate s = .ok d)
      (hid : d.info.launcherId = storeId) (hops : Hops U d t₁ ds last)
      (hstop : Stops U n last (ds.map Datastore.root) t₂ r) :
      Walks U storeId n (⟨.coinSpend storeId, .ok (some s)⟩ :: (t₁ ++ t₂)) r

section Inversion

variable [ToString E] {t : List (Reading E)}

theorem readVerifiedSpend_runs {coinId : Bytes32} {r : DigStoreResult (Option CoinSpend)}
    (h : Runs (readVerifiedSpend U coinId).run t r) :
    ∃ a, t = [⟨.coinSpend coinId, a⟩] ∧ Verified U coinId a r := by
  obtain ⟨a, t, rfl, hr⟩ := runs_ask_seq.mp h
  refine ⟨a, ?_⟩
  cases a with
  | error e =>
      obtain ⟨rfl, rfl⟩ := runs_done.mp hr
      exact ⟨rfl, .refused _ _ trivial⟩
  | ok a =>
      cases a with
      | none =>
          obtain ⟨rfl, rfl⟩ := runs_done.mp hr
          exact ⟨rfl, .absent⟩
      | some s =>
          simp only [Except.mapError, ofResult_ok_seq] at hr
          split at hr
          · obtain ⟨rfl, rfl⟩ := runs_done.mp hr
            exact ⟨rfl, .refused _ _ ‹_›⟩
          · obtain ⟨rfl, rfl⟩ := runs_done.mp hr
            exact ⟨rfl, .spend _ (not_not.mp ‹_›)⟩

theorem walkLoop_runs {storeId : Bytes32} {n : Nat} {roots : List Bytes32} {d : Datastore}
    {r : DigStoreResult WalkOutcome} (hroots : roots.length ≤ n)
    (h : Runs (walkLoop U storeId n roots d).run t r) :
    ∃ t₁ t₂ ds last, t = t₁ ++ t₂ ∧ Hops U d t₁ ds last ∧
      Stops U n last (roots ++ ds.map Datastore.root) t₂ r := by
  -- The room left under the cap shrinks with every pushed root.
  induction hk : n - roots.length generalizing roots d t with
  | zero =>
      rw [walkLoop, dif_pos (by omega)] at h
      obtain ⟨rfl, rfl⟩ := runs_throw.mp h
      exact ⟨[], [], [d], d, rfl, .here d, .cap _ (by simp; omega)⟩
  | succ k ih =>
      have hlen : (roots ++ [d.root]).length ≤ n := by simp; omega
      rw [walkLoop, dif_neg (by omega)] at h
      rcases runs_seq.mp h with ⟨e, rfl, h₁⟩ | ⟨t₁, a, t₂, rfl, h₁, h₂⟩
      · obtain ⟨a, rfl, hv⟩ := readVerifiedSpend_runs h₁
        cases hv with
        | refused a detail ha =>
            exact ⟨[], _, [d], d, rfl, .here d, .refused a detail hlen ha.hop⟩
      · obtain ⟨b, rfl, hv⟩ := readVerifiedSpend_runs h₁
        cases hv with
        | absent =>
            obtain ⟨rfl, rfl⟩ := runs_done.mp h₂
            exact ⟨[], _, [d], d, rfl, .here d, .live hlen⟩
        | spend s hs =>
            simp only at h₂
            split at h₂
            · rename_i child hc
              obtain ⟨u₁, u₂, ds, last, rfl, hops, hstop⟩ := ih hlen h₂ (by simp; omega)
              refine ⟨_ :: u₁, u₂, d :: ds, last, rfl, .hop hs hc hops, ?_⟩
              simpa using hstop
            · rename_i hm
              obtain ⟨rfl, rfl⟩ := runs_done.mp h₂
              exact ⟨[], _, [d], d, rfl, .here d, .melted s hlen hs hm⟩
            · rename_i e hm he
              obtain ⟨rfl, rfl⟩ := runs_throw.mp h₂
              exact ⟨[], _, [d], d, rfl, .here d, .refused _ _ hlen (.inr ⟨e, he, hm⟩)⟩

/-- Everything a call of the walk can do, against a source of any kind. -/
theorem walkOutcomeBounded_runs {storeId : Bytes32} {n : Nat} {r : DigStoreResult WalkOutcome}
    (h : Runs (walkOutcomeBounded U storeId n).run t r) : Walks U storeId n t r := by
  rcases runs_seq.mp h with ⟨e, rfl, h₁⟩ | ⟨t₁, a, t₂, rfl, h₁, h₂⟩
  · obtain ⟨a, rfl, hv⟩ := readVerifiedSpend_runs h₁
    cases hv with
    | refused a detail ha => exact .refused a detail ha.launcher
  · obtain ⟨b, rfl, hv⟩ := readVerifiedSpend_runs h₁
    cases hv with
    | absent =>
        obtain ⟨rfl, rfl⟩ := runs_done.mp h₂
        exact .notFound
    | spend s hs =>
        cases hd : U.hydrate s with
        | error e =>
            simp only [hd, Except.mapError, ofResult_error_seq] at h₂
            obtain ⟨rfl, rfl⟩ := runs_ofResult.mp h₂
            exact .refused _ _ (.inr (fun d h => by simp [hd] at h))
        | ok d =>
            simp only [hd, Except.mapError, ofResult_ok_seq] at h₂
            split at h₂
            · obtain ⟨rfl, rfl⟩ := runs_throw.mp h₂
              refine .refused _ _ (.inr (fun d' h => ?_))
              rw [hd] at h
              cases h
              assumption
            · obtain ⟨u₁, u₂, ds, last, rfl, hops, hstop⟩ := walkLoop_runs (Nat.zero_le n) h₂
              change Walks U storeId n (_ :: (u₁ ++ u₂)) r
              exact .follows hs hd (not_not.mp ‹_›) hops hstop

end Inversion

end DigStore.Walk
