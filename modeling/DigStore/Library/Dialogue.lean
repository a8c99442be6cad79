import Mathlib.Data.List.Basic

namespace DigStore.Library.Dialogue

variable {Q : Type} {A : Q → Type} {α β ε σ : Type}

/-- A program that puts questions to a party it does not control and goes on
from whatever it is told. The tree is well founded, so every run ends. -/
inductive Client (A : Q → Type) (α : Type) : Type
  | done (a : α)
  | ask (q : Q) (k : A q → Client A α)

abbrev Exchange (A : Q → Type) := Sigma A

namespace Client

def bind : Client A α → (α → Client A β) → Client A β
  | .done a, f => f a
  | .ask q k, f => .ask q (fun r => (k r).bind f)

instance : Monad (Client A) where
  pure := .done
  bind := bind

end Client

/-- A party with memory: what it says may depend on everything it was asked. -/
abbrev Server (A : Q → Type) (σ : Type) := σ → (q : Q) → A q × σ

structure Outcome (A : Q → Type) (α : Type) where
  trace : List (Exchange A)
  result : α

def run (srv : Server A σ) : σ → Client A α → Outcome A α
  | _, .done a => ⟨[], a⟩
  | s, .ask q k =>
    let o := run srv (srv s q).2 (k (srv s q).1)
    ⟨⟨q, (srv s q).1⟩ :: o.trace, o.result⟩

def fixed (f : (q : Q) → A q) : Server A Unit := fun _ q => (f q, ())

def consult (f : (q : Q) → A q) (c : Client A α) : Outcome A α := run (fixed f) () c

/-- A party whose table of answers changes: the questions of a run are put to
the tables `f 0`, `f 1`, ... in turn. -/
def timed (f : ℕ → (q : Q) → A q) : Server A ℕ := fun i q => (f i q, i + 1)

/-- The runs of a client, whoever answers: `Runs c t a` when the exchanges `t`,
in this order, bring `c` to its result `a`. -/
inductive Runs : Client A α → List (Exchange A) → α → Prop
  | done (a) : Runs (.done a) [] a
  | ask {q} {k : A q → Client A α} {r t a} (h : Runs (k r) t a) : Runs (.ask q k) (⟨q, r⟩ :: t) a

theorem runs_run (srv : Server A σ) (s : σ) (c : Client A α) :
    Runs c (run srv s c).trace (run srv s c).result := by
  induction c generalizing s with
  | done a => exact .done a
  | ask q k ih => exact .ask (ih _ _)

theorem runs_consult (f : (q : Q) → A q) (c : Client A α) :
    Runs c (consult f c).trace (consult f c).result :=
  runs_run _ _ _

theorem consult_answers (f : (q : Q) → A q) (c : Client A α) :
    ∀ e ∈ (consult f c).trace, f e.1 = e.2 := by
  induction c with
  | done a => intro e he; exact absurd he List.not_mem_nil
  | ask q k ih =>
      intro e he
      rcases List.mem_cons.mp he with rfl | he
      · rfl
      · exact ih _ e he

theorem timed_answers (f : ℕ → (q : Q) → A q) (i : ℕ) (c : Client A α) {k : ℕ} {e : Exchange A}
    (h : (run (timed f) i c).trace[k]? = some e) : f (i + k) e.1 = e.2 := by
  induction c generalizing i k with
  | done a => cases h
  | ask q g ih =>
      cases k with
      | zero =>
          cases h
          rfl
      | succ k =>
          have hk := ih (f i q) (i + 1) h
          rwa [Nat.add_right_comm] at hk

/-- A table that repeats the answers of a run reproduces the run. This is how
answers given at different times are compared with one fixed source. -/
theorem Runs.consult_eq {f : (q : Q) → A q} {c : Client A α} {t : List (Exchange A)} {a : α}
    (h : Runs c t a) (hf : ∀ e ∈ t, f e.1 = e.2) : consult f c = ⟨t, a⟩ := by
  induction h with
  | done a => rfl
  | @ask q k r t a h ih =>
      have hq : f q = r := hf ⟨q, r⟩ List.mem_cons_self
      have ht := ih (fun e he => hf e (List.mem_cons_of_mem _ he))
      subst hq
      change (⟨_ :: (consult f (k (f q))).trace, _⟩ : Outcome A α) = _
      rw [ht]
      exact congrArg (Outcome.mk _) (congrArg Outcome.result ht)

/-- `Serves srv s t s'`: from the state `s` on the party gives the answers in `t`, in
this order, and is left in the state `s'`. -/
inductive Serves (srv : Server A σ) : σ → List (Exchange A) → σ → Prop
  | nil (s) : Serves srv s [] s
  | cons {s q a t s'} (ha : (srv s q).1 = a) (h : Serves srv (srv s q).2 t s') : Serves srv s (⟨q, a⟩ :: t) s'

theorem serves_run (srv : Server A σ) (s : σ) (c : Client A α) : ∃ s', Serves srv s (run srv s c).trace s' := by
  induction c generalizing s with
  | done a => exact ⟨s, .nil s⟩
  | ask q k ih =>
      obtain ⟨s', h⟩ := ih (srv s q).1 (srv s q).2
      exact ⟨s', .cons rfl h⟩

theorem serves_append {srv : Server A σ} {s s' : σ} {t u : List (Exchange A)} :
    Serves srv s (t ++ u) s' ↔ ∃ m, Serves srv s t m ∧ Serves srv m u s' := by
  constructor
  · intro h
    induction t generalizing s with
    | nil => exact ⟨s, .nil s, h⟩
    | cons e t ih =>
        cases h with
        | cons ha h =>
            obtain ⟨m, ht, hu⟩ := ih h
            exact ⟨m, .cons ha ht, hu⟩
  · rintro ⟨m, ht, hu⟩
    induction ht with
    | nil => exact hu
    | cons ha _ ih => exact .cons ha (ih hu)

@[simp] theorem runs_done {a b : α} {t : List (Exchange A)} :
    Runs (.done a : Client A α) t b ↔ t = [] ∧ b = a := by
  constructor
  · rintro ⟨⟩; exact ⟨rfl, rfl⟩
  · rintro ⟨rfl, rfl⟩; exact .done _

theorem runs_bind {c : Client A α} {f : α → Client A β} {t : List (Exchange A)} {b : β} :
    Runs (c >>= f) t b ↔ ∃ t₁ a t₂, t = t₁ ++ t₂ ∧ Runs c t₁ a ∧ Runs (f a) t₂ b := by
  constructor
  · intro h
    induction c generalizing t with
    | done a => exact ⟨[], a, t, rfl, .done a, h⟩
    | ask q k ih =>
        cases h with
        | @ask _ _ r t _ h =>
            obtain ⟨t₁, a, t₂, rfl, h₁, h₂⟩ := ih r h
            exact ⟨⟨q, r⟩ :: t₁, a, t₂, rfl, .ask h₁, h₂⟩
  · rintro ⟨t₁, a, t₂, rfl, h₁, h₂⟩
    induction h₁ with
    | done a => exact h₂
    | ask _ ih => exact .ask (ih h₂)

theorem Runs.unique {c : Client A α} {t t' u : List (Exchange A)} {a a' : α}
    (h : Runs c t a) (h' : Runs c t' a') (hu : t <+: u) (hu' : t' <+: u) : t = t' ∧ a = a' := by
  induction h generalizing t' u with
  | done a => exact ⟨(runs_done.mp h').1.symm, (runs_done.mp h').2.symm⟩
  | @ask q k r t a h ih =>
      cases h' with
      | @ask _ _ r' t' _ h' =>
          -- Both runs put the same question, and `u` has one answer to it.
          cases u with
          | nil => exact absurd (List.prefix_nil.mp hu) (List.cons_ne_nil _ _)
          | cons e u =>
              obtain ⟨he, ht⟩ := List.cons_prefix_cons.mp hu
              obtain ⟨he', ht'⟩ := List.cons_prefix_cons.mp hu'
              cases he.trans he'.symm
              obtain ⟨rfl, rfl⟩ := ih h' ht ht'
              exact ⟨rfl, rfl⟩

theorem run_trace_bind (srv : Server A σ) (s : σ) (c : Client A α) (f : α → Client A β) :
    (run srv s c).trace <+: (run srv s (c >>= f)).trace := by
  induction c generalizing s with
  | done a => exact List.nil_prefix
  | ask q k ih => exact (List.prefix_cons_inj _).mpr (ih _ _)

theorem run_map (srv : Server A σ) (s : σ) (c : Client A α) (f : α → β) :
    run srv s (f <$> c) = ⟨(run srv s c).trace, f (run srv s c).result⟩ := by
  induction c generalizing s with
  | done a => rfl
  | ask q k ih =>
      have hrest := ih (srv s q).1 (srv s q).2
      change (⟨_ :: (run srv (srv s q).2 (f <$> k (srv s q).1)).trace,
        (run srv (srv s q).2 (f <$> k (srv s q).1)).result⟩ : Outcome A β) = _
      rw [hrest]
      rfl

abbrev Fallible (A : Q → Type) (ε α : Type) := ExceptT ε (Client A) α

def ask (q : Q) : Fallible A ε (A q) := ExceptT.mk (.ask q (fun r => .done (.ok r)))

def ofResult (r : Except ε α) : Fallible A ε α := ExceptT.mk (.done r)

theorem run_adapt (srv : Server A σ) (s : σ) {δ : Type} (f : ε → δ) (x : Fallible A ε α) :
    run srv s (x.adapt f).run = ⟨(run srv s x.run).trace, (run srv s x.run).result.mapError f⟩ :=
  run_map srv s x.run (Except.mapError f)

section Fallible

variable {x : Fallible A ε α} {f : α → Fallible A ε β} {t : List (Exchange A)}

theorem runs_ask {q : Q} {r : Except ε (A q)} :
    Runs (ask q : Fallible A ε (A q)).run t r ↔ ∃ a, t = [⟨q, a⟩] ∧ r = .ok a := by
  constructor
  · intro h
    cases h with
    | ask h =>
        obtain ⟨rfl, rfl⟩ := runs_done.mp h
        exact ⟨_, rfl, rfl⟩
  · rintro ⟨a, rfl, rfl⟩
    exact .ask (.done _)

theorem runs_ofResult {r r' : Except ε α} :
    Runs (ofResult r' : Fallible A ε α).run t r ↔ t = [] ∧ r = r' := runs_done

theorem runs_throw {e : ε} {r : Except ε α} :
    Runs (throw e : Fallible A ε α).run t r ↔ t = [] ∧ r = .error e := runs_done

/-- The two ways through a sequence: the first part fails and nothing more is
asked, or it yields a value and the second part goes on. -/
theorem runs_seq {r : Except ε β} :
    Runs (x >>= f).run t r ↔
      (∃ e, r = .error e ∧ Runs x.run t (.error e)) ∨
        ∃ t₁ a t₂, t = t₁ ++ t₂ ∧ Runs x.run t₁ (.ok a) ∧ Runs (f a).run t₂ r := by
  rw [show (x >>= f).run = x.run >>= ExceptT.bindCont f from rfl, runs_bind]
  constructor
  · rintro ⟨t₁, a | a, t₂, rfl, h₁, h₂⟩
    · obtain ⟨rfl, rfl⟩ := runs_done.mp h₂
      exact .inl ⟨a, rfl, by simpa using h₁⟩
    · exact .inr ⟨t₁, a, t₂, rfl, h₁, h₂⟩
  · rintro (⟨e, rfl, h⟩ | ⟨t₁, a, t₂, rfl, h₁, h₂⟩)
    · exact ⟨t, .error e, [], by simp, h, runs_done.mpr ⟨rfl, rfl⟩⟩
    · exact ⟨t₁, .ok a, t₂, rfl, h₁, h₂⟩

theorem runs_ask_seq {q : Q} {f : A q → Fallible A ε β} {r : Except ε β} :
    Runs (ask q >>= f).run t r ↔ ∃ a t', t = ⟨q, a⟩ :: t' ∧ Runs (f a).run t' r := by
  rw [runs_seq]
  constructor
  · rintro (⟨e, rfl, h⟩ | ⟨t₁, a, t₂, rfl, h₁, h₂⟩)
    · obtain ⟨a, -, h⟩ := runs_ask.mp h
      cases h
    · obtain ⟨b, rfl, h⟩ := runs_ask.mp h₁
      cases h
      exact ⟨a, t₂, rfl, h₂⟩
  · rintro ⟨a, t', rfl, h⟩
    exact .inr ⟨[⟨q, a⟩], a, t', rfl, runs_ask.mpr ⟨a, rfl, rfl⟩, h⟩

@[simp] theorem ofResult_ok_seq {a : α} : (ofResult (.ok a) : Fallible A ε α) >>= f = f a := rfl

@[simp] theorem ofResult_error_seq {e : ε} :
    (ofResult (.error e) : Fallible A ε α) >>= f = ofResult (.error e) := rfl

end Fallible

end DigStore.Library.Dialogue
