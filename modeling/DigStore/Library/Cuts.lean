import DigStore.Library.Dialogue

namespace DigStore.Library.Dialogue

variable {Q : Type} {A : Q → Type} {α β ε σ : Type}

/-- The first client is the second, but at some points it gives up, with the
result `a`. -/
inductive Cuts (a : α) : Client A α → Client A α → Prop
  | same (c) : Cuts a c c
  | cut (c) : Cuts a (.done a) c
  | ask {q} {k k' : A q → Client A α} (h : ∀ r, Cuts a (k r) (k' r)) : Cuts a (.ask q k) (.ask q k')

theorem Cuts.run {a : α} {c c' : Client A α} (h : Cuts a c c') (srv : Server A σ) (s : σ) :
    Dialogue.run srv s c = Dialogue.run srv s c' ∨
      ((Dialogue.run srv s c).result = a ∧ (Dialogue.run srv s c).trace <+: (Dialogue.run srv s c').trace) := by
  induction h generalizing s with
  | same => exact .inl rfl
  | cut => exact .inr ⟨rfl, List.nil_prefix⟩
  | @ask q k k' _ ih =>
      rcases ih (srv s q).1 (srv s q).2 with he | ⟨hr, ht⟩
      · left
        simp only [Dialogue.run, he]
      · exact .inr ⟨hr, (List.prefix_cons_inj _).mpr ht⟩

theorem Cuts.seq (x : Fallible A ε α) {f f' : α → Fallible A ε β} {e : ε}
    (h : ∀ a, Cuts (.error e) (f a).run (f' a).run) : Cuts (.error e) (x >>= f).run (x >>= f').run := by
  change Cuts (.error e) (Client.bind x.run (ExceptT.bindCont f)) (Client.bind x.run (ExceptT.bindCont f'))
  induction x.run with
  | done a =>
      cases a with
      | error e' => exact .same _
      | ok a => exact h a
  | ask q k ih => exact .ask ih

end DigStore.Library.Dialogue
