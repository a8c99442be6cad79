import Mathlib.Data.List.Chain
import Mathlib.Data.List.Nodup
import Mathlib.Logic.Relator

namespace DigStore.Library.Trail

variable {α : Type*} {R : α → α → Prop}

def Final (R : α → α → Prop) (a : α) : Prop := ∀ b, ¬R a b

/-- Where successors are unique, a trail that cannot be continued contains every
trail from the same start. -/
theorem isPrefix_of_final (hR : Relator.RightUnique R) {a : α} {l₁ l₂ : List α}
    (h₁ : (a :: l₁).IsChain R) (hf : ∀ b ∈ (a :: l₁).getLast?, Final R b)
    (h₂ : (a :: l₂).IsChain R) : a :: l₂ <+: a :: l₁ := by
  induction l₁ generalizing a l₂ with
  | nil =>
      cases l₂ with
      | nil => exact List.prefix_refl _
      | cons c l₂ => exact absurd (List.isChain_cons_cons.mp h₂).1 (hf a rfl c)
  | cons b l₁ ih =>
      cases l₂ with
      | nil => exact List.cons_prefix_cons.mpr ⟨rfl, List.nil_prefix⟩
      | cons c l₂ =>
          obtain ⟨hb, h₁⟩ := List.isChain_cons_cons.mp h₁
          obtain ⟨hc, h₂⟩ := List.isChain_cons_cons.mp h₂
          obtain rfl := hR hb hc
          refine List.cons_prefix_cons.mpr ⟨rfl, ih h₁ ?_ h₂⟩
          simpa only [List.getLast?_cons_cons] using hf

theorem isPrefix_or_isPrefix (hR : Relator.RightUnique R) {a : α} {l₁ l₂ : List α} (h₁ : (a :: l₁).IsChain R)
    (h₂ : (a :: l₂).IsChain R) : a :: l₁ <+: a :: l₂ ∨ a :: l₂ <+: a :: l₁ := by
  induction l₁ generalizing a l₂ with
  | nil => exact .inl (List.cons_prefix_cons.mpr ⟨rfl, List.nil_prefix⟩)
  | cons b l₁ ih =>
      cases l₂ with
      | nil => exact .inr (List.cons_prefix_cons.mpr ⟨rfl, List.nil_prefix⟩)
      | cons c l₂ =>
          obtain ⟨hb, h₁⟩ := List.isChain_cons_cons.mp h₁
          obtain ⟨hc, h₂⟩ := List.isChain_cons_cons.mp h₂
          obtain rfl := hR hb hc
          exact (ih h₁ h₂).imp (List.prefix_cons_inj a).mpr (List.prefix_cons_inj a).mpr

theorem getLast_of_final {a : α} {l : List α} (h : l.IsChain R) (ha : a ∈ l) (hf : Final R a) :
    l.getLast? = some a := by
  induction l with
  | nil => cases ha
  | cons b l ih =>
      cases l with
      | nil =>
          rw [List.mem_singleton.mp ha]
          rfl
      | cons c l =>
          obtain ⟨hbc, h⟩ := List.isChain_cons_cons.mp h
          rw [List.getLast?_cons_cons]
          rcases List.mem_cons.mp ha with rfl | ha
          · exact absurd hbc (hf c)
          · exact ih h ha

/-- No entry of a trail that ends leads back to where the trail began: going round
once more would give a longer trail than the one that cannot be continued. -/
theorem no_return (hR : Relator.RightUnique R) {a b : α} {l : List α} (h : (a :: l).IsChain R)
    (hf : ∀ c ∈ (a :: l).getLast?, Final R c) (hb : b ∈ a :: l) : ¬R b a := by
  intro hba
  obtain ⟨l₁, l₂, hl⟩ := List.append_of_mem hb
  have hsuffix : b :: l₂ <:+ a :: l := ⟨l₁, hl.symm⟩
  have hloop : (b :: a :: l).IsChain R := List.isChain_cons_cons.mpr ⟨hba, h⟩
  have hend : ∀ c ∈ (b :: l₂).getLast?, Final R c := by
    intro c hc
    apply hf
    rw [hl, List.getLast?_append, hc]
    rfl
  have hround := (isPrefix_of_final hR (h.suffix hsuffix) hend hloop).length_le
  have hlen := hsuffix.length_le
  simp only [List.length_cons] at hround hlen
  omega

theorem nodup_of_final {κ : Type*} (key : α → κ) (hR : Relator.RightUnique R)
    (hkey : ∀ a b c, key a = key b → R a c → R b c) {l : List α} (h : l.IsChain R)
    (hf : ∀ c ∈ l.getLast?, Final R c) : (l.map key).Nodup := by
  induction l with
  | nil => exact List.nodup_nil
  | cons a l ih =>
      cases l with
      | nil => exact List.nodup_singleton _
      | cons c l =>
          obtain ⟨hac, h⟩ := List.isChain_cons_cons.mp h
          rw [List.getLast?_cons_cons] at hf
          rw [List.map_cons, List.nodup_cons]
          refine ⟨?_, ih h hf⟩
          intro hmem
          obtain ⟨b, hb, hba⟩ := List.mem_map.mp hmem
          exact no_return hR h hf hb (hkey a b c hba.symm hac)

theorem isChain_constant {β : Type*} (f : α → β) {a : α} {l : List α} :
    (a :: l).IsChain (fun x y => f y = f x) ↔ ∀ x ∈ a :: l, f x = f a := by
  induction l generalizing a with
  | nil => simp
  | cons b l ih =>
      rw [List.isChain_cons_cons, ih]
      constructor
      · intro h x hx
        rcases List.mem_cons.mp hx with rfl | hx
        · rfl
        · exact (h.2 x hx).trans h.1
      · intro h
        have hb : f b = f a := h b (by simp)
        refine ⟨hb, fun x hx => ?_⟩
        rw [hb]
        exact h x (List.mem_cons_of_mem _ hx)

end DigStore.Library.Trail
