import Mathlib.Data.List.Infix
import Mathlib.Order.Max

namespace DigStore.Library.Stages

/-- What can be found of a record that is only ever appended to: nothing yet, its
items so far with what the next one will be built on, all of its items, or a
fault that nothing repairs. -/
inductive Stage (α τ ε : Type*)
  | absent
  | growing (items : List α) (tip : τ)
  | closed (items : List α)
  | failed (error : ε)

variable {α τ ε : Type*}

namespace Stage

inductive Le : Stage α τ ε → Stage α τ ε → Prop
  | refl (s) : Le s s
  | absent (s) : Le .absent s
  | grows {xs ys a b} (h : xs <+: ys) (hlt : xs.length < ys.length) : Le (.growing xs a) (.growing ys b)
  | closes {xs ys a} (h : xs <+: ys) : Le (.growing xs a) (.closed ys)
  | fails (xs a e) : Le (.growing xs a) (.failed e)

theorem Le.trans {s t u : Stage α τ ε} (h : Le s t) (h' : Le t u) : Le s u := by
  cases h with
  | refl => exact h'
  | absent => exact .absent u
  | grows hp hlt =>
      cases h' with
      | refl => exact .grows hp hlt
      | grows hp' hlt' => exact .grows (hp.trans hp') (hlt.trans hlt')
      | closes hp' => exact .closes (hp.trans hp')
      | fails => exact .fails _ _ _
  | closes hp =>
      cases h' with
      | refl => exact .closes hp
  | fails =>
      cases h' with
      | refl => exact .fails _ _ _

theorem Le.antisymm {s t : Stage α τ ε} (h : Le s t) (h' : Le t s) : s = t := by
  cases h with
  | refl => rfl
  | absent => cases h' <;> rfl
  | grows hp hlt =>
      cases h' with
      | refl => rfl
      | grows hp' hlt' => exact absurd hlt' (Nat.lt_asymm hlt)
  | closes | fails => cases h'

instance : PartialOrder (Stage α τ ε) where
  le := Le
  le_refl := .refl
  le_trans _ _ _ := Le.trans
  le_antisymm _ _ := Le.antisymm

variable {xs ys : List α} {a b : τ} {s t : Stage α τ ε}

theorem absent_le (s : Stage α τ ε) : .absent ≤ s := Le.absent s

theorem isMax_closed : IsMax (closed xs : Stage α τ ε) := by
  rintro s ⟨⟩
  exact le_rfl

theorem isMax_failed {e : ε} : IsMax (failed e : Stage α τ ε) := by
  rintro s ⟨⟩
  exact le_rfl

theorem growing_le_failed (e : ε) : (growing xs a : Stage α τ ε) ≤ .failed e := Le.fails xs a e

theorem growing_le_closed (h : xs <+: ys) : (growing xs a : Stage α τ ε) ≤ .closed ys := Le.closes h

theorem growing_le_growing (h : xs <+: ys) (he : xs.length = ys.length → a = b) :
    (growing xs a : Stage α τ ε) ≤ .growing ys b := by
  by_cases hlen : xs.length = ys.length
  · obtain rfl := h.eq_of_length hlen
    obtain rfl := he hlen
    exact le_rfl
  · exact Le.grows h (lt_of_le_of_ne h.length_le hlen)

def items : Stage α τ ε → Option (List α)
  | .absent => some []
  | .growing xs _ => some xs
  | .closed xs => some xs
  | .failed _ => none

theorem items_le (h : s ≤ t) (hs : s.items = some xs) (ht : t.items = some ys) : xs <+: ys := by
  cases h with
  | refl =>
      cases hs.symm.trans ht
      exact List.prefix_refl _
  | absent =>
      cases hs
      exact List.nil_prefix
  | grows hp | closes hp =>
      cases hs
      cases ht
      exact hp
  | fails => cases ht

/-- Two stages below a third are comparable as soon as any two growing ones are. -/
theorem comparable_of_le {u : Stage α τ ε} (h : s ≤ u) (h' : t ≤ u)
    (hg : ∀ xs a ys b, s = .growing xs a → t = .growing ys b → s ≤ t ∨ t ≤ s) : s ≤ t ∨ t ≤ s := by
  cases s with
  | absent => exact .inl (absent_le t)
  | closed xs => exact .inr (h'.trans (isMax_closed h))
  | failed e => exact .inr (h'.trans (isMax_failed h))
  | growing xs a =>
      cases t with
      | absent => exact .inr (absent_le _)
      | closed ys => exact .inl (h.trans (isMax_closed h'))
      | failed e => exact .inl (h.trans (isMax_failed h'))
      | growing ys b => exact hg xs a ys b rfl rfl

end Stage

end DigStore.Library.Stages
