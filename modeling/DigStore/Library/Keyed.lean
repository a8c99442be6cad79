import Mathlib.Data.List.Nodup

namespace DigStore.Library.Keyed

variable {α κ : Type*} [DecidableEq κ] {key : α → κ} {l l' : List α} {k : κ} {a : α}

/-- The entry of a table under a key. A table is a list that is only appended to. -/
def lookup (key : α → κ) (l : List α) (k : κ) : Option α := l.find? fun a => key a = k

theorem lookup_key (h : lookup key l k = some a) : key a = k := by
  simpa using List.find?_some h

theorem lookup_mem (h : lookup key l k = some a) : a ∈ l := List.mem_of_find?_eq_some h

theorem lookup_none : lookup key l k = none ↔ ∀ a ∈ l, key a ≠ k := by
  simp [lookup]

theorem lookup_append_keeps (h : lookup key l k = some a) : lookup key (l ++ l') k = some a := by
  rw [lookup, List.find?_append, ← lookup, h]
  rfl

theorem lookup_append_none (h : lookup key l k = none) (h' : ∀ a ∈ l', key a ≠ k) :
    lookup key (l ++ l') k = none := by
  rw [lookup_none] at h ⊢
  intro a ha
  rcases List.mem_append.mp ha with ha | ha
  · exact h a ha
  · exact h' a ha

theorem lookup_of_mem (hl : (l.map key).Nodup) (ha : a ∈ l) : lookup key l (key a) = some a := by
  cases h : lookup key l (key a) with
  | none => exact absurd rfl (lookup_none.mp h a ha)
  | some b => exact congrArg some (List.inj_on_of_nodup_map hl (lookup_mem h) ha (lookup_key h))

theorem nodup_append (hl : (l.map key).Nodup) (hl' : (l'.map key).Nodup)
    (h : ∀ a ∈ l', lookup key l (key a) = none) : ((l ++ l').map key).Nodup := by
  rw [List.map_append, List.nodup_append]
  refine ⟨hl, hl', ?_⟩
  intro x hx y hy
  obtain ⟨a, ha, rfl⟩ := List.mem_map.mp hx
  obtain ⟨b, hb, rfl⟩ := List.mem_map.mp hy
  exact lookup_none.mp (h b hb) a ha

end DigStore.Library.Keyed
