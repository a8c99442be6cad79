import Mathlib.Data.List.Perm.Basic
import Mathlib.Data.List.ReduceOption

namespace DigStore.Library.Scan

variable {α β ε : Type}

theorem mapM_ok {f : α → Except ε β} {g : α → β} {l : List α} (h : ∀ x ∈ l, f x = .ok (g x)) :
    l.mapM f = .ok (l.map g) := by
  induction l with
  | nil => rfl
  | cons x l ih =>
      rw [List.mapM_cons, h x List.mem_cons_self, ih fun y hy => h y (List.mem_cons_of_mem x hy)]
      rfl

/-- A loop that can raise one error only raises it, wherever it first does. -/
theorem mapM_error {f : α → Except ε β} {e : ε} {l : List α} {x : α} (hx : x ∈ l) (hf : f x = .error e)
    (h : ∀ y ∈ l, ∀ e', f y = .error e' → e' = e) : l.mapM f = .error e := by
  induction l with
  | nil => cases hx
  | cons y l ih =>
      rw [List.mapM_cons]
      cases hy : f y with
      | error e' =>
          rw [h y List.mem_cons_self e' hy]
          rfl
      | ok b =>
          have hxl : x ∈ l := by
            rcases List.mem_cons.mp hx with rfl | hxl
            · rw [hf] at hy
              cases hy
            · exact hxl
          rw [ih hxl fun z hz => h z (List.mem_cons_of_mem y hz)]
          rfl

/-- A search does not depend on the order where all that it can find is one value. -/
theorem findSome?_perm {f : α → Option β} {l l' : List α} (hp : l.Perm l')
    (h : ∀ x ∈ l, ∀ y ∈ l, ∀ a b, f x = some a → f y = some b → a = b) : l.findSome? f = l'.findSome? f := by
  cases hl : l.findSome? f with
  | none =>
      symm
      apply List.findSome?_eq_none_iff.mpr
      intro x hx
      exact List.findSome?_eq_none_iff.mp hl x (hp.mem_iff.mpr hx)
  | some a =>
      obtain ⟨x, hx, hfx⟩ := List.exists_of_findSome?_eq_some hl
      cases hl' : l'.findSome? f with
      | none =>
          rw [List.findSome?_eq_none_iff.mp hl' x (hp.mem_iff.mp hx)] at hfx
          cases hfx
      | some b =>
          obtain ⟨y, hy, hfy⟩ := List.exists_of_findSome?_eq_some hl'
          rw [h x hx y (hp.mem_iff.mpr hy) a b hfx hfy]

theorem find?_perm {p : α → Bool} {l l' : List α} (hp : l.Perm l') (h : ∀ x ∈ l, ∀ y ∈ l, p x → p y → x = y) :
    l.find? p = l'.find? p := by
  rw [← List.findSome?_guard, ← List.findSome?_guard]
  apply findSome?_perm hp
  intro x hx y hy a b ha hb
  obtain ⟨rfl, hpa⟩ := Option.guard_eq_some_iff.mp ha
  obtain ⟨rfl, hpb⟩ := Option.guard_eq_some_iff.mp hb
  exact h _ hx _ hy hpa hpb

theorem forall₂_filterMap {f : α → Option β} {R : α → β → Prop} {l : List α}
    (h : ∀ x ∈ l, ∀ y, f x = some y → R x y) :
    List.Forall₂ R (l.filter fun x => (f x).isSome) (l.filterMap f) := by
  induction l with
  | nil => exact .nil
  | cons x l ih =>
      have htail := ih fun y hy => h y (List.mem_cons_of_mem x hy)
      cases hf : f x with
      | none =>
          rw [List.filter_cons_of_neg (by simp [hf]), List.filterMap_cons_none hf]
          exact htail
      | some y =>
          rw [List.filter_cons_of_pos (by simp [hf]), List.filterMap_cons_some hf]
          exact .cons (h x List.mem_cons_self y hf) htail

theorem findSome?_filter {f : α → Option β} {p : α → Bool} {l : List α} (h : ∀ x ∈ l, p x = false → f x = none) :
    (l.filter p).findSome? f = l.findSome? f := by
  induction l with
  | nil => rfl
  | cons x l ih =>
      have htail := ih fun y hy => h y (List.mem_cons_of_mem x hy)
      cases hp : p x with
      | true => rw [List.filter_cons_of_pos hp, List.findSome?_cons, List.findSome?_cons, htail]
      | false =>
          rw [List.filter_cons_of_neg (by simp [hp]), htail, List.findSome?_cons, h x List.mem_cons_self hp]

theorem mapM_filter {f : α → Except ε (Option β)} {p : α → Bool} {l : List α}
    (h : ∀ x ∈ l, p x = false → f x = .ok none) :
    ((l.filter p).mapM f).map List.reduceOption = (l.mapM f).map List.reduceOption := by
  induction l with
  | nil => rfl
  | cons x l ih =>
      have htail := ih fun y hy => h y (List.mem_cons_of_mem x hy)
      have hcons (xs : List α) : ((x :: xs).mapM f).map List.reduceOption =
          (f x).bind fun found => ((xs.mapM f).map List.reduceOption).map (found.toList ++ ·) := by
        rw [List.mapM_cons]
        cases f x with
        | error e => rfl
        | ok found =>
            change (xs.mapM f >>= fun later => pure (found :: later)).map _ = _
            cases xs.mapM f with
            | error e => rfl
            | ok later => cases found <;> rfl
      cases hp : p x with
      | true => rw [List.filter_cons_of_pos hp, hcons, hcons, htail]
      | false =>
          rw [List.filter_cons_of_neg (by simp [hp]), htail, hcons, h x List.mem_cons_self hp]
          cases l.mapM f <;> rfl

theorem exists_perm_cons {x : α} {l : List α} (h : x ∈ l) : ∃ rest, (x :: rest).Perm l := by
  obtain ⟨before, after, rfl⟩ := List.append_of_mem h
  exact ⟨before ++ after, List.perm_middle.symm⟩

end DigStore.Library.Scan
