import Mathlib.Data.List.Basic

namespace DigStore.Library.Text

variable {α : Type*} {p : α → Bool}

/-- A text splits in one way only before its first mark, where marks are what `p`
does not hold of. -/
theorem split_inj {l₁ l₂ r₁ r₂ : List α} {c d : α} (h₁ : ∀ x ∈ l₁, p x) (h₂ : ∀ x ∈ l₂, p x) (hc : ¬p c)
    (hd : ¬p d) (h : l₁ ++ c :: r₁ = l₂ ++ d :: r₂) : l₁ = l₂ ∧ c :: r₁ = d :: r₂ := by
  induction l₁ generalizing l₂ with
  | nil =>
      cases l₂ with
      | nil => exact ⟨rfl, h⟩
      | cons x l₂ =>
          obtain ⟨rfl, -⟩ := List.cons.inj h
          exact absurd (h₂ c List.mem_cons_self) hc
  | cons x l₁ ih =>
      cases l₂ with
      | nil =>
          obtain ⟨rfl, -⟩ := List.cons.inj h
          exact absurd (h₁ x List.mem_cons_self) hd
      | cons y l₂ =>
          obtain ⟨rfl, htail⟩ := List.cons.inj h
          obtain ⟨rfl, hr⟩ := ih (fun a ha => h₁ a (List.mem_cons_of_mem _ ha))
            (fun a ha => h₂ a (List.mem_cons_of_mem _ ha)) htail
          exact ⟨rfl, hr⟩

theorem toDigits_inj {m n : ℕ} (h : Nat.toDigits 10 m = Nat.toDigits 10 n) : m = n := by
  have hread := congrArg (fun digits => Nat.ofDigitChars 10 digits 0) h
  simpa using hread

/-- A decimal number is read off a text up to the first character that is no digit. -/
theorem decimal_inj {m n : ℕ} {r₁ r₂ : List Char} {c d : Char} (hc : ¬c.isDigit) (hd : ¬d.isDigit)
    (h : Nat.toDigits 10 m ++ c :: r₁ = Nat.toDigits 10 n ++ d :: r₂) : m = n ∧ c :: r₁ = d :: r₂ := by
  have hdigits (k : ℕ) : ∀ x ∈ Nat.toDigits 10 k, x.isDigit := by
    intro x hx
    exact Nat.isDigit_of_mem_toDigits (by decide) (Nat.le_refl 10) hx
  obtain ⟨hl, hr⟩ := split_inj (hdigits m) (hdigits n) hc hd h
  exact ⟨toDigits_inj hl, hr⟩

def Marked (text : String) : Prop := ∃ c rest, text.toList = c :: rest ∧ ¬c.isDigit

theorem Marked.append {text : String} (h : Marked text) (more : String) : Marked (text ++ more) := by
  obtain ⟨c, rest, htext, hc⟩ := h
  exact ⟨c, rest ++ more.toList, by rw [String.toList_append, htext, List.cons_append], hc⟩

theorem repr_append_inj {m n : ℕ} {q q' : String} (hq : Marked q) (hq' : Marked q')
    (h : Nat.repr m ++ q = Nat.repr n ++ q') : m = n ∧ q = q' := by
  obtain ⟨c, rest, hc, hmark⟩ := hq
  obtain ⟨c', rest', hc', hmark'⟩ := hq'
  have hlist := congrArg String.toList h
  rw [String.toList_append, String.toList_append, Nat.toList_repr, Nat.toList_repr, hc, hc'] at hlist
  obtain ⟨hmn, hr⟩ := decimal_inj hmark hmark' hlist
  exact ⟨hmn, String.toList_inj.mp (hc.trans (hr.trans hc'.symm))⟩

theorem take_front (front rest : String) {k : ℕ} (h : k ≤ front.toList.length) :
    (front ++ rest).toList.take k = front.toList.take k := by
  rw [String.toList_append, List.take_append_of_le_length h]

def Begins (front text : String) : Prop := ∃ rest, text = front ++ rest

theorem Begins.refl (front : String) : Begins front front := ⟨"", String.append_empty.symm⟩

theorem Begins.append {front text : String} (h : Begins front text) (more : String) : Begins front (text ++ more) := by
  obtain ⟨rest, rfl⟩ := h
  exact ⟨rest ++ more, String.append_assoc⟩

end DigStore.Library.Text
