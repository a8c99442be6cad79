import DigStore.Status
import Mathlib.Data.List.Chain

namespace DigStore.FailClosed

open Library.Dialogue Store Walk Getters Status

variable {U : Upstream} {P : UrnProtocol} {E α σ : Type} {storeId : Bytes32} {n : Nat} {t : List (Reading E)}

/-- The reading at position `i` of a call is one the call must not go on from.
Position zero is the launcher read. -/
def Faulty (U : Upstream) (storeId : Bytes32) (i : Nat) : Reading E → Prop
  | ⟨.coinSpend coinId, a⟩ => match i with
    | 0 => FaultyLauncher U storeId a
    | _ + 1 => FaultyHop U coinId a
  | ⟨.coinRecord _, .error _⟩ => True
  | ⟨.peakHeight, .error _⟩ => True
  | _ => False

def answeredSpend : Reading E → Option CoinSpend
  | ⟨.coinSpend _, .ok s⟩ => s
  | _ => none

def spendsOf (t : List (Reading E)) : List CoinSpend := t.filterMap answeredSpend

/-- The generations a call passed through: what its answered spends hydrate to. -/
def generationsOf (U : Upstream) (t : List (Reading E)) : List Datastore :=
  (spendsOf t).filterMap fun s => (U.hydrate s).toOption

def Linked (U : Upstream) (s s' : CoinSpend) : Prop :=
  ∃ d, U.hydrate s = .ok d ∧ U.coinId s'.coin = U.coinId d.coin

/-- The spends of a call form one chain that starts at the launcher. -/
structure Chained (U : Upstream) (storeId : Bytes32) (t : List (Reading E)) : Prop where
  identified : ∀ coinId s, ⟨.coinSpend coinId, .ok (some s)⟩ ∈ t → U.coinId s.coin = coinId
  launcher : ∀ s ∈ (spendsOf t).head?, U.coinId s.coin = storeId ∧
    ∃ d, U.hydrate s = .ok d ∧ d.info.launcherId = storeId
  linked : (spendsOf t).IsChain (Linked U)

structure FailsClosed (U : Upstream) (storeId : Bytes32) (o : Outcome (Answer E) (DigStoreResult α)) : Prop where
  stops : ∀ i e, o.trace[i]? = some e → Faulty U storeId i e →
    o.trace.length = i + 1 ∧ ∃ error, o.result = .error error
  proof_error : ∀ error, o.result = .error error → error.IsProof
  chained : ∀ a, o.result = .ok a → Chained U storeId o.trace

/-- What an answered walk has passed through: the generations whose roots it reports,
the last of them the tip or else the one that a last spend melts. -/
inductive Passed (U : Upstream) (t : List (Reading E)) : WalkOutcome → Prop
  | live {tip} (h : (generationsOf U t).getLast? = some tip) :
      Passed U t (.live ((generationsOf U t).map Datastore.root) tip)
  | melted {s} (h : generationsOf U t ≠ []) (hs : (spendsOf t).getLast? = some s)
      (hm : U.hydrate s = .error .missingLineage) : Passed U t (.melted ((generationsOf U t).map Datastore.root))

/-- The value of a getter is read off what it has passed through. -/
def Grounded (U : Upstream) (view : WalkOutcome → DigStoreResult α) (o : Outcome (Answer E) (DigStoreResult α)) :
    Prop :=
  ∀ a, o.result = .ok a → ∃ w, Passed U o.trace w ∧ view w = .ok a

/-- A status other than NotFound tells what it has passed through, and a live one the
record and the peak it was given. -/
inductive StatusGrounded (U : Upstream) (storeId : Bytes32) (target : UInt32) (t : List (Reading E)) :
    StoreStatus → Prop
  | notFound (h : spendsOf t = []) : StatusGrounded U storeId target t (closedStatus .notFound storeId 0)
  | melted {roots} (h : Passed U t (.melted roots)) :
      StatusGrounded U storeId target t (closedStatus .melted storeId roots.length)
  | live {roots tip record peak} (h : Passed U t (.live roots tip))
      (hr : ⟨.coinRecord (U.coinId tip.coin), .ok record⟩ ∈ t) (hs : record.any U.isSpent = false)
      (hp : ⟨.peakHeight, .ok peak⟩ ∈ t) :
      StatusGrounded U storeId target t (liveReport U storeId target roots tip record peak)

theorem spendsOf_append {u : List (Reading E)} (hu : spendsOf u = []) : spendsOf (t ++ u) = spendsOf t := by
  rw [spendsOf, List.filterMap_append]
  exact (congrArg (spendsOf t ++ ·) hu).trans (List.append_nil _)

theorem generationsOf_append (U : Upstream) (t u : List (Reading E)) :
    generationsOf U (t ++ u) = generationsOf U t ++ generationsOf U u := by
  rw [generationsOf, spendsOf, List.filterMap_append, List.filterMap_append]
  rfl

theorem generationsOf_spend {s : CoinSpend} {d : Datastore} (hd : U.hydrate s = .ok d) (id : Bytes32)
    (t : List (Reading E)) : generationsOf U (⟨.coinSpend id, .ok (some s)⟩ :: t) = d :: generationsOf U t := by
  have h : generationsOf U ([⟨.coinSpend id, .ok (some s)⟩] : List (Reading E)) = [d] := by
    simp [generationsOf, spendsOf, answeredSpend, hd, Except.toOption]
  rw [← List.singleton_append, generationsOf_append, h]
  rfl

theorem hops_generations {d last : Datastore} {ds : List Datastore} (h : Hops U d t ds last) :
    d :: generationsOf U t = ds ∧ ds.getLast? = some last := by
  induction h with
  | here d => exact ⟨rfl, rfl⟩
  | hop hs hc _ ih =>
      obtain ⟨hds, hlast⟩ := ih
      subst hds
      rw [generationsOf_spend hc, List.getLast?_cons_cons]
      exact ⟨rfl, hlast⟩

theorem stops_generations {last : Datastore} {roots : List Bytes32} {w : WalkOutcome}
    (h : Stops U n last roots t (.ok w)) : generationsOf U t = [] := by
  cases h with
  | live => rfl
  | melted s _ _ hm => simp [generationsOf, spendsOf, answeredSpend, hm, Except.toOption]

theorem follows_generations {s : CoinSpend} {d last : Datastore} {t₁ t₂ : List (Reading E)} {ds : List Datastore}
    {roots : List Bytes32} {w : WalkOutcome} (id : Bytes32) (hd : U.hydrate s = .ok d) (hops : Hops U d t₁ ds last)
    (hstop : Stops U n last roots t₂ (.ok w)) :
    generationsOf U (⟨.coinSpend id, .ok (some s)⟩ :: (t₁ ++ t₂)) = ds := by
  rw [generationsOf_spend hd, generationsOf_append, stops_generations hstop, List.append_nil]
  exact (hops_generations hops).1

theorem hops_not_faulty {d last : Datastore} {ds : List Datastore} (h : Hops U d t ds last) :
    ∀ e ∈ t, ∀ i, ¬Faulty U storeId (i + 1) e := by
  induction h with
  | here => simp
  | hop hs hc _ ih =>
      intro e he i
      rcases List.mem_cons.mp he with rfl | he
      · rintro (h | ⟨e, he, -⟩)
        · exact h hs
        · rw [hc] at he
          cases he
      · exact ih e he i

theorem single_reading {x e : Reading E} {i : Nat} (h : [x][i]? = some e) : i = 0 ∧ e = x := by
  rw [List.getElem?_singleton] at h
  split at h
  · exact ⟨‹_›, (Option.some.inj h).symm⟩
  · cases h

theorem stops_faulty {last : Datastore} {roots : List Bytes32} {r : DigStoreResult WalkOutcome}
    (h : Stops U n last roots t r) {i j : Nat} {e : Reading E} (he : t[i]? = some e)
    (hf : Faulty U storeId (j + 1) e) : t.length = i + 1 ∧ ∃ error, r = .error error := by
  cases h with
  | cap => simp at he
  | live h =>
      obtain ⟨rfl, rfl⟩ := single_reading he
      exact absurd hf id
  | melted s h hs hm =>
      obtain ⟨rfl, rfl⟩ := single_reading he
      rcases hf with hf | ⟨e, he, hne⟩
      · exact absurd hs hf
      · rw [hm] at he
        cases he
        exact absurd rfl hne
  | refused a detail h ha =>
      obtain ⟨rfl, rfl⟩ := single_reading he
      exact ⟨rfl, _, rfl⟩

theorem hops_linked {d last : Datastore} {ds : List Datastore} (h : Hops U d t ds last)
    {s : CoinSpend} (hs : U.hydrate s = .ok d) {l : List CoinSpend}
    (hl : (l.IsChain (Linked U))) (hlast : ∀ s' ∈ l.head?, U.coinId s'.coin = U.coinId last.coin) :
    (s :: (spendsOf t ++ l)).IsChain (Linked U) := by
  induction h generalizing s with
  | here => exact List.isChain_cons.mpr ⟨fun s' hs' => ⟨_, hs, hlast s' hs'⟩, hl⟩
  | @hop d s' child t ds last hs' hc _ ih =>
      have hrest := ih hc hlast
      exact List.isChain_cons_cons.mpr ⟨⟨d, hs, hs'⟩, hrest⟩

theorem hops_identified {d last : Datastore} {ds : List Datastore} (h : Hops U d t ds last) :
    ∀ coinId s, ⟨.coinSpend coinId, .ok (some s)⟩ ∈ t → U.coinId s.coin = coinId := by
  induction h with
  | here => simp
  | hop hs hc _ ih =>
      intro coinId s hm
      rcases List.mem_cons.mp hm with he | hm
      · cases he
        exact hs
      · exact ih coinId s hm

theorem walks_stops {r : DigStoreResult WalkOutcome} (h : Walks U storeId n t r) {i : Nat} {e : Reading E}
    (he : t[i]? = some e) (hf : Faulty U storeId i e) : t.length = i + 1 ∧ ∃ error, r = .error error := by
  cases h with
  | notFound =>
      obtain ⟨rfl, rfl⟩ := single_reading he
      exact absurd hf id
  | refused a detail ha =>
      obtain ⟨rfl, rfl⟩ := single_reading he
      exact ⟨rfl, _, rfl⟩
  | @follows s d t₁ t₂ ds last r hs hd hid hops hstop =>
      cases i with
      | zero =>
          cases he
          rcases hf with hf | hf
          · exact absurd hs hf
          · exact absurd hid (hf d hd)
      | succ i =>
          -- After the launcher read come the hops, none of them faulty, and the end.
          rw [List.getElem?_cons_succ] at he
          by_cases hi : i < t₁.length
          · rw [List.getElem?_append_left hi] at he
            exact absurd hf (hops_not_faulty hops e (List.mem_of_getElem? he) i)
          · rw [List.getElem?_append_right (by omega)] at he
            obtain ⟨hlen, hr⟩ := stops_faulty hstop he hf
            refine ⟨?_, hr⟩
            simp only [List.length_cons, List.length_append]
            omega

theorem walks_error {r : DigStoreResult WalkOutcome} (h : Walks U storeId n t r) :
    ∀ error, r = .error error → error.IsProof := by
  cases h with
  | notFound => simp
  | refused => rintro _ ⟨⟩; trivial
  | follows _ _ _ _ hstop => cases hstop <;> rintro _ ⟨⟩ <;> trivial

theorem stops_chained {last : Datastore} {roots : List Bytes32} {o : WalkOutcome}
    (h : Stops U n last roots t (.ok o)) :
    (spendsOf t).IsChain (Linked U) ∧ (∀ s ∈ (spendsOf t).head?, U.coinId s.coin = U.coinId last.coin) ∧
      ∀ coinId s, ⟨.coinSpend coinId, .ok (some s)⟩ ∈ t → U.coinId s.coin = coinId := by
  cases h with
  | live h => exact ⟨List.isChain_nil, by rintro _ ⟨⟩, by simp⟩
  | melted s h hs hm =>
      refine ⟨List.isChain_singleton s, ?_, ?_⟩
      · rintro _ ⟨⟩
        exact hs
      · intro coinId s' hmem
        cases List.mem_singleton.mp hmem
        exact hs

theorem walks_chained {o : WalkOutcome} (h : Walks U storeId n t (.ok o)) : Chained U storeId t := by
  cases h with
  | notFound => exact ⟨by simp, by simp [spendsOf, answeredSpend], List.isChain_nil⟩
  | @follows s d t₁ t₂ ds last _ hs hd hid hops hstop =>
      obtain ⟨hchain, hhead, hident⟩ := stops_chained hstop
      refine ⟨?_, ?_, ?_⟩
      · intro coinId s' hm
        rcases List.mem_cons.mp hm with he | hm
        · cases he
          exact hs
        · rcases List.mem_append.mp hm with hm | hm
          · exact hops_identified hops coinId s' hm
          · exact hident coinId s' hm
      · rintro _ ⟨⟩
        exact ⟨hs, d, hd, hid⟩
      · have hl := hops_linked hops hd hchain hhead
        rwa [spendsOf, spendsOf, ← List.filterMap_append] at hl

theorem walks_passed {w : WalkOutcome} (h : Walks U storeId n t (.ok w)) :
    (w = .notFound ∧ spendsOf t = []) ∨ Passed U t w := by
  cases h with
  | notFound => exact .inl ⟨rfl, rfl⟩
  | @follows s d t₁ t₂ ds last _ hs hd hid hops hstop =>
      have hg := follows_generations storeId hd hops hstop
      obtain ⟨hds, hlast⟩ := hops_generations hops
      right
      cases hstop with
      | live =>
          rw [← hg] at hlast ⊢
          exact .live hlast
      | melted s' _ _ hm =>
          have hne : ds ≠ [] := by
            rw [← hds]
            exact List.cons_ne_nil _ _
          rw [← hg] at hne ⊢
          refine .melted hne ?_ hm
          rw [spendsOf, ← List.cons_append, List.filterMap_append, List.getLast?_append]
          rfl

theorem walks_failsClosed {r : DigStoreResult WalkOutcome} (h : Walks U storeId n t r) :
    FailsClosed U storeId ⟨t, r⟩ := by
  refine ⟨fun i e => walks_stops h, walks_error h, ?_⟩
  rintro o rfl
  exact walks_chained h

theorem FailsClosed.view {r : DigStoreResult WalkOutcome} (h : FailsClosed U storeId ⟨t, r⟩)
    (view : WalkOutcome → DigStoreResult α) (hview : ∀ w e, view w = .error e → e.IsProof) :
    FailsClosed U storeId ⟨t, r.bind view⟩ := by
  refine ⟨?_, ?_, ?_⟩
  · intro i e he hf
    obtain ⟨hlen, error, rfl⟩ := h.stops i e he hf
    exact ⟨hlen, error, rfl⟩
  · intro error he
    cases r with
    | error e =>
        cases he
        exact h.proof_error _ rfl
    | ok w => exact hview w error he
  · intro a ha
    cases r with
    | error e => cases ha
    | ok w => exact h.chained w rfl

theorem attests_stops {target : UInt32} {roots : List Bytes32} {tip : Datastore}
    {r : DigStoreResult StoreStatus} (h : Attests U storeId target roots tip t r) {i j : Nat} {e : Reading E}
    (he : t[i]? = some e) (hf : Faulty U storeId j e) : t.length = i + 1 ∧ ∃ error, r = .error error := by
  cases h with
  | unread error detail =>
      obtain ⟨rfl, rfl⟩ := single_reading he
      exact ⟨rfl, _, rfl⟩
  | contradicted record detail h =>
      obtain ⟨rfl, rfl⟩ := single_reading he
      exact absurd hf id
  | noPeak record error detail h =>
      cases i with
      | zero =>
          cases he
          exact absurd hf id
      | succ i =>
          obtain ⟨rfl, rfl⟩ := single_reading he
          exact ⟨rfl, _, rfl⟩
  | reported record peak h =>
      cases i with
      | zero =>
          cases he
          exact absurd hf id
      | succ i =>
          obtain ⟨rfl, rfl⟩ := single_reading he
          exact absurd hf id

theorem attests_error {target : UInt32} {roots : List Bytes32} {tip : Datastore} {error : DigStoreError}
    (h : Attests U storeId target roots tip t (.error error)) : error.IsProof := by
  cases h <;> trivial

theorem attests_spends {target : UInt32} {roots : List Bytes32} {tip : Datastore} {st : StoreStatus}
    (h : Attests U storeId target roots tip t (.ok st)) :
    spendsOf t = [] ∧ ∀ coinId s, ⟨.coinSpend coinId, .ok (some s)⟩ ∉ t := by
  cases h with
  | reported record peak h => exact ⟨rfl, by simp⟩

theorem Chained.append {u : List (Reading E)} (h : Chained U storeId t) (hu : spendsOf u = [])
    (hn : ∀ coinId s, ⟨.coinSpend coinId, .ok (some s)⟩ ∉ u) : Chained U storeId (t ++ u) := by
  have hs := spendsOf_append (t := t) hu
  refine ⟨?_, ?_, ?_⟩
  · intro coinId s hm
    rcases List.mem_append.mp hm with hm | hm
    · exact h.identified coinId s hm
    · exact absurd hm (hn coinId s)
  · rw [hs]
    exact h.launcher
  · rw [hs]
    exact h.linked

theorem reports_failsClosed {target : UInt32} {r : DigStoreResult StoreStatus}
    (h : Reports U storeId target (Walks U storeId n) t r) : FailsClosed U storeId ⟨t, r⟩ := by
  cases h with
  | failed hw =>
      exact (walks_failsClosed hw).view (fun _ => .ok (closedStatus .notFound storeId 0)) (by rintro _ _ ⟨⟩)
  | notFound hw =>
      exact (walks_failsClosed hw).view (fun _ => .ok (closedStatus .notFound storeId 0)) (by rintro _ _ ⟨⟩)
  | @melted _ roots hw =>
      exact (walks_failsClosed hw).view (fun _ => .ok (closedStatus .melted storeId roots.length))
        (by rintro _ _ ⟨⟩)
  | @live t u roots tip r hw ha =>
      refine ⟨?_, ?_, ?_⟩
      · intro i e he hf
        by_cases hi : i < t.length
        · rw [List.getElem?_append_left hi] at he
          obtain ⟨-, _, he⟩ := walks_stops hw he hf
          cases he
        · rw [List.getElem?_append_right (by omega)] at he
          obtain ⟨hlen, hr⟩ := attests_stops ha he hf
          refine ⟨?_, hr⟩
          simp only [List.length_append]
          omega
      · rintro error rfl
        exact attests_error ha
      · rintro st rfl
        obtain ⟨hu, hn⟩ := attests_spends ha
        exact (walks_chained hw).append hu hn

theorem Passed.append {u : List (Reading E)} {w : WalkOutcome} (h : Passed U t w) (hu : spendsOf u = []) :
    Passed U (t ++ u) w := by
  have hs := spendsOf_append (t := t) hu
  have hg : generationsOf U (t ++ u) = generationsOf U t := by rw [generationsOf, hs, generationsOf]
  cases h with
  | live hlast =>
      rw [← hg] at hlast ⊢
      exact .live hlast
  | melted hne hlast hm =>
      rw [← hg] at hne ⊢
      rw [← hs] at hlast
      exact .melted hne hlast hm

theorem reports_grounded {target : UInt32} {st : StoreStatus}
    (h : Reports U storeId target (Walks U storeId n) t (.ok st)) : StatusGrounded U storeId target t st := by
  cases h with
  | notFound hw =>
      rcases walks_passed hw with ⟨-, hs⟩ | hp
      · exact .notFound hs
      · cases hp
  | melted hw =>
      rcases walks_passed hw with ⟨he, -⟩ | hp
      · cases he
      · exact .melted hp
  | live hw ha =>
      rcases walks_passed hw with ⟨he, -⟩ | hp
      · cases he
      · cases ha with
        | reported record peak hs => exact .live (hp.append rfl) (by simp) hs (by simp)

variable [ToString E]

theorem view_ok {g : LineageGetter α} {w : WalkOutcome} {a : α} (h : g.view P storeId w = .ok a) : w ≠ .notFound := by
  rintro rfl
  cases g <;> cases h

theorem lineage_grounded (g : LineageGetter α) (srv : Server (Answer E) σ) (s : σ) :
    Grounded U (g.view P storeId) (run srv s (g.call U P storeId).run) := by
  intro a ha
  have hrun := runs_run srv s (g.call (E := E) U P storeId).run
  rw [ha] at hrun
  obtain ⟨w, hw, hv⟩ := g.readsOff.ok hrun
  rcases walks_passed (walkOutcomeBounded_runs hw) with ⟨he, -⟩ | hp
  · exact absurd he (view_ok hv)
  · exact ⟨w, hp, hv⟩

theorem status_grounded (srv : Server (Answer E) σ) (s : σ) (target : UInt32) {st : StoreStatus}
    (h : (run srv s (getStoreStatus U storeId target).run).result = .ok st) :
    StatusGrounded U storeId target (run srv s (getStoreStatus U storeId target).run).trace st := by
  have hrun := getStoreStatus_runs (runs_run srv s (getStoreStatus (E := E) U storeId target).run)
  rw [h] at hrun
  exact reports_grounded (hrun.mono fun _ _ _ => walkOutcomeBounded_runs)

theorem lineage_failsClosed (g : LineageGetter α) (srv : Server (Answer E) σ) (s : σ) :
    FailsClosed U storeId (run srv s (g.call U P storeId).run) := by
  have hrun := runs_run srv s (g.call (E := E) U P storeId).run
  generalize run srv s (g.call U P storeId).run = o at hrun ⊢
  obtain ⟨t, r⟩ := o
  obtain ⟨w, hw, rfl⟩ := g.readsOff t r hrun
  exact (walks_failsClosed (walkOutcomeBounded_runs hw)).view _ fun w e => g.view_error

theorem status_failsClosed (srv : Server (Answer E) σ) (s : σ) (target : UInt32) :
    FailsClosed U storeId (run srv s (getStoreStatus U storeId target).run) := by
  have hrun := getStoreStatus_runs (runs_run srv s (getStoreStatus (E := E) U storeId target).run)
  exact reports_failsClosed (hrun.mono fun _ _ _ => walkOutcomeBounded_runs)

/-- Against a source that may choose every answer from all it was asked, a bad
answer is the last reading of a call and its error, every error is a failed
proof, and what a call answers rests on one chain of spends and is read off the
generations along it. -/
theorem getters_fail_closed (srv : Server (Answer E) σ) (s : σ) (storeId : Bytes32) (target : UInt32) :
    (∀ {α : Type} (g : LineageGetter α), FailsClosed U storeId (run srv s (g.call U P storeId).run) ∧
      Grounded U (g.view P storeId) (run srv s (g.call U P storeId).run)) ∧
    FailsClosed U storeId (run srv s (getStoreStatus U storeId target).run) ∧
    ∀ st, (run srv s (getStoreStatus U storeId target).run).result = .ok st →
      StatusGrounded U storeId target (run srv s (getStoreStatus U storeId target).run).trace st :=
  ⟨fun g => ⟨lineage_failsClosed g srv s, lineage_grounded g srv s⟩, status_failsClosed srv s target,
    fun _ => status_grounded srv s target⟩

end DigStore.FailClosed
