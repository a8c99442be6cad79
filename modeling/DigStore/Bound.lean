import DigStore.Library.Cuts
import DigStore.Reads
import DigStore.Simulator

namespace DigStore.Bound

open Library.Dialogue Store Walk Reads

variable {U : Upstream} {E σ : Type} {storeId : Bytes32} {n m : Nat} {t : List (Reading E)}

def capExceeded (storeId : Bytes32) (n : Nat) : DigStoreError :=
  .proof (s!"store {storeId} lineage exceeds the {n}-generation cap; " ++
    "refusing to follow further (possible hostile chain source)")

section Cuts

variable [ToString E]

theorem walkLoop_cuts (hnm : n ≤ m) (roots : List Bytes32) (d : Datastore) :
    Cuts (.error (capExceeded storeId n)) (walkLoop U storeId n roots d : Getter E WalkOutcome).run
      (walkLoop U storeId m roots d : Getter E WalkOutcome).run := by
  -- The room left under the smaller cap shrinks with every pushed root.
  induction hk : n - roots.length generalizing roots d with
  | zero =>
      rw [walkLoop, dif_pos (by omega)]
      exact .cut _
  | succ k ih =>
      rw [walkLoop, dif_neg (by omega), walkLoop, dif_neg (by omega)]
      apply Cuts.seq
      intro spend
      cases spend with
      | none => exact .same _
      | some spend =>
          simp only
          split
          · exact ih _ _ (by simp; omega)
          · exact .same _
          · exact .same _

theorem walkOutcomeBounded_cuts (hnm : n ≤ m) :
    Cuts (.error (capExceeded storeId n)) (walkOutcomeBounded U storeId n : Getter E WalkOutcome).run
      (walkOutcomeBounded U storeId m : Getter E WalkOutcome).run := by
  apply Cuts.seq
  intro spend
  cases spend with
  | none => exact .same _
  | some spend =>
      apply Cuts.seq
      intro d
      split
      · exact .same _
      · exact walkLoop_cuts hnm [] d

theorem walkLoop_below (hnm : n ≤ m) {roots : List Bytes32} {d : Datastore} {r : DigStoreResult WalkOutcome}
    (hroots : roots.length ≤ n) (h : Runs (walkLoop U storeId n roots d).run t r) :
    Runs (walkLoop U storeId m roots d).run t r ∨
      ((∀ e ∈ t, Advances U e) ∧ roots.length + t.length = n) := by
  induction hk : n - roots.length generalizing roots d t with
  | zero =>
      rw [walkLoop, dif_pos (by omega)] at h
      obtain ⟨rfl, rfl⟩ := runs_throw.mp h
      exact .inr ⟨by simp, by simp; omega⟩
  | succ k ih =>
      have hlen : (roots ++ [d.root]).length ≤ n := by simp; omega
      rw [walkLoop, dif_neg (by omega)] at h
      rw [walkLoop, dif_neg (by omega)]
      rcases runs_seq.mp h with ⟨e, rfl, h₁⟩ | ⟨t₁, a, t₂, rfl, h₁, h₂⟩
      · exact .inl (runs_seq.mpr (.inl ⟨e, rfl, h₁⟩))
      · obtain ⟨b, rfl, hv⟩ := readVerifiedSpend_runs h₁
        cases hv with
        | absent => exact .inl (runs_seq.mpr (.inr ⟨_, _, _, rfl, h₁, h₂⟩))
        | spend s hs =>
            cases hd : U.hydrate s with
            | error e =>
                refine .inl (runs_seq.mpr (.inr ⟨_, _, _, rfl, h₁, ?_⟩))
                simp only [hd] at h₂ ⊢
                cases e <;> exact h₂
            | ok child =>
                simp only [hd] at h₂
                rcases ih hlen h₂ (by simp; omega) with hm | ⟨hall, hn⟩
                · refine .inl (runs_seq.mpr (.inr ⟨_, _, _, rfl, h₁, ?_⟩))
                  simp only [hd]
                  exact hm
                · right
                  constructor
                  · intro e he
                    rcases List.mem_cons.mp he with rfl | he
                    · exact ⟨hs, child, hd⟩
                    · exact hall e he
                  · simp at hn ⊢
                    omega

theorem walkOutcomeBounded_below (hnm : n ≤ m) {r : DigStoreResult WalkOutcome}
    (h : Runs (walkOutcomeBounded U storeId n).run t r) :
    Runs (walkOutcomeBounded U storeId m).run t r ∨ ((∀ e ∈ t, Advances U e) ∧ t.length = n + 1) := by
  rcases runs_seq.mp h with ⟨e, rfl, h₁⟩ | ⟨t₁, a, t₂, rfl, h₁, h₂⟩
  · exact .inl (runs_seq.mpr (.inl ⟨e, rfl, h₁⟩))
  · obtain ⟨b, rfl, hv⟩ := readVerifiedSpend_runs h₁
    cases hv with
    | absent => exact .inl (runs_seq.mpr (.inr ⟨_, _, _, rfl, h₁, h₂⟩))
    | spend s hs =>
        cases hd : U.hydrate s with
        | error e =>
            refine .inl (runs_seq.mpr (.inr ⟨_, _, _, rfl, h₁, ?_⟩))
            simp only [hd] at h₂ ⊢
            exact h₂
        | ok d =>
            simp only [hd, Except.mapError, ofResult_ok_seq] at h₂
            by_cases hid : d.info.launcherId = storeId
            · rw [if_neg (not_not.mpr hid)] at h₂
              have hroots : ([] : List Bytes32).length ≤ n := Nat.zero_le n
              rcases walkLoop_below hnm hroots h₂ with hm | ⟨hall, hn⟩
              · refine .inl (runs_seq.mpr (.inr ⟨_, _, _, rfl, h₁, ?_⟩))
                simp only [hd, Except.mapError, ofResult_ok_seq]
                rw [if_neg (not_not.mpr hid)]
                exact hm
              · right
                constructor
                · intro e he
                  rcases List.mem_cons.mp he with rfl | he
                  · exact ⟨hs, d, hd⟩
                  · exact hall e he
                · simp at hn ⊢
                  omega
            · refine .inl (runs_seq.mpr (.inr ⟨_, _, _, rfl, h₁, ?_⟩))
              simp only [hd, Except.mapError, ofResult_ok_seq]
              rw [if_pos hid] at h₂ ⊢
              exact h₂

/-- Whoever answers, and however: the cap either plays no part in a walk or cuts it
off, and then every single answer had led the walk further. -/
theorem bound_only_cuts (U : Upstream) (storeId : Bytes32) (srv : Server (Answer E) σ) (s : σ) (h : n ≤ m) :
    run srv s (walkOutcomeBounded U storeId n).run = run srv s (walkOutcomeBounded U storeId m).run ∨
      ((run srv s (walkOutcomeBounded U storeId n).run).result = .error (capExceeded storeId n) ∧
        (run srv s (walkOutcomeBounded U storeId n).run).trace <+:
          (run srv s (walkOutcomeBounded U storeId m).run).trace ∧
        (run srv s (walkOutcomeBounded U storeId n).run).trace.length = n + 1 ∧
        ∀ e ∈ (run srv s (walkOutcomeBounded U storeId n).run).trace, Advances U e) := by
  have hrun := runs_run srv s (walkOutcomeBounded U storeId n : Getter E WalkOutcome).run
  have hrun' := runs_run srv s (walkOutcomeBounded U storeId m : Getter E WalkOutcome).run
  rcases (walkOutcomeBounded_cuts h).run srv s with he | ⟨hcap, htrace⟩
  · exact .inl he
  · rcases walkOutcomeBounded_below h hrun with hm | ⟨hall, hlen⟩
    · obtain ⟨ht, hr⟩ := hm.unique hrun' htrace (List.prefix_refl _)
      left
      change Outcome.mk _ _ = Outcome.mk _ _
      exact congr (congrArg Outcome.mk ht) hr
    · exact .inr ⟨hcap, htrace, hlen, hall⟩

end Cuts

theorem bound_only_cuts_updated :
    (consult (Simulator.chain [Simulator.launch, Simulator.update] []).answer
        (walkOutcomeBounded Simulator.upstream Simulator.storeId 1).run).result =
      .error (capExceeded Simulator.storeId 1) := by
  rcases bound_only_cuts Simulator.upstream Simulator.storeId
    (fixed (Simulator.chain [Simulator.launch, Simulator.update] []).answer) () (show 1 ≤ 2 by decide) with h | h
  · exact absurd (congrArg (fun o => o.trace.length) h) (by decide +kernel)
  · exact h.1

end DigStore.Bound
