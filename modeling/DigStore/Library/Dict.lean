import Mathlib.Data.List.AList
import Mathlib.Data.List.Induction
import Mathlib.Data.List.Sort

namespace DigStore.Library.Dict

variable {κ ν : Type} [DecidableEq κ]

def valuesOf (key : κ) (items : List (κ × ν)) : List ν :=
  items.filterMap fun item => if item.1 = key then some item.2 else none

/-- Each item is written under its key, over what an earlier one wrote there. -/
def assign (items : List (κ × ν)) : AList fun _ : κ => ν :=
  items.foldl (fun dict item => dict.insert item.1 item.2) ∅

/-- Each item is appended to the list under its key. -/
def group (items : List (κ × ν)) : AList fun _ : κ => List ν :=
  items.foldl (fun dict item => dict.insert item.1 ((dict.lookup item.1).getD [] ++ [item.2])) ∅

theorem mem_valuesOf {key : κ} {value : ν} {items : List (κ × ν)} :
    value ∈ valuesOf key items ↔ (key, value) ∈ items := by
  simp only [valuesOf, List.mem_filterMap]
  constructor
  · rintro ⟨⟨k, v⟩, hmem, hif⟩
    by_cases hk : k = key
    · simp only [hk, if_true, Option.some.injEq] at hif
      rwa [← hk, ← hif] at *
    · simp [hk] at hif
  · intro hmem
    exact ⟨(key, value), hmem, by simp⟩

theorem valuesOf_append (key : κ) (items more : List (κ × ν)) :
    valuesOf key (items ++ more) = valuesOf key items ++ valuesOf key more :=
  List.filterMap_append

theorem valuesOf_same (key : κ) (value : ν) : valuesOf key [(key, value)] = [value] := by
  simp [valuesOf]

theorem valuesOf_other {key other : κ} (h : key ≠ other) (value : ν) : valuesOf key [(other, value)] = [] := by
  simp [valuesOf, Ne.symm h]

theorem perm_valuesOf (key : κ) {items items' : List (κ × ν)} (h : items.Perm items') :
    (valuesOf key items).Perm (valuesOf key items') :=
  h.filterMap _

theorem lookup_assign (key : κ) (items : List (κ × ν)) :
    (assign items).lookup key = (valuesOf key items).getLast? := by
  induction items using List.reverseRecOn with
  | nil => rfl
  | append_singleton items item ih =>
      rw [valuesOf_append, assign, List.foldl_append]
      change ((assign items).insert item.1 item.2).lookup key = _
      by_cases hk : key = item.1
      · subst hk
        rw [AList.lookup_insert, valuesOf_same]
        simp
      · rw [AList.lookup_insert_ne hk, ih, valuesOf_other hk, List.append_nil]

theorem lookup_group (key : κ) (items : List (κ × ν)) :
    ((group items).lookup key).getD [] = valuesOf key items := by
  induction items using List.reverseRecOn with
  | nil => rfl
  | append_singleton items item ih =>
      rw [valuesOf_append, group, List.foldl_append]
      change (((group items).insert item.1 (((group items).lookup item.1).getD [] ++ [item.2])).lookup key).getD [] = _
      by_cases hk : key = item.1
      · subst hk
        rw [AList.lookup_insert, valuesOf_same, ← ih]
        rfl
      · rw [AList.lookup_insert_ne hk, ih, valuesOf_other hk, List.append_nil]

section Sorted

variable [LinearOrder κ] {dict dict' : AList fun _ : κ => ν}

def sorted (dict : AList fun _ : κ => ν) : List (κ × ν) :=
  (dict.entries.map fun item => (item.1, item.2)).insertionSort fun a b => a.1 ≤ b.1

theorem mem_sorted {key : κ} {value : ν} : (key, value) ∈ sorted dict ↔ dict.lookup key = some value := by
  rw [sorted, List.mem_insertionSort, List.mem_map]
  constructor
  · rintro ⟨⟨k, v⟩, hmem, ⟨⟩⟩
    exact AList.mem_lookup_iff.mpr hmem
  · intro h
    exact ⟨⟨key, value⟩, AList.mem_lookup_iff.mp h, rfl⟩

omit [DecidableEq κ] in
theorem sorted_keys (dict : AList fun _ : κ => ν) : (sorted dict).Pairwise fun a b => a.1 < b.1 := by
  have hle : (sorted dict).Pairwise fun a b => a.1 ≤ b.1 := by
    have : Std.Total fun a b : κ × ν => a.1 ≤ b.1 := ⟨fun a b => le_total a.1 b.1⟩
    have : IsTrans (κ × ν) fun a b => a.1 ≤ b.1 := ⟨fun a b c => le_trans⟩
    exact List.pairwise_insertionSort _ _
  have hne : (sorted dict).Pairwise fun a b => a.1 ≠ b.1 := by
    rw [← List.pairwise_map, ← List.Nodup]
    have hkeys := dict.nodupKeys
    rw [List.NodupKeys, List.keys] at hkeys
    have hperm : ((sorted dict).map Prod.fst).Perm (dict.entries.map Sigma.fst) := by
      have hsort := (List.perm_insertionSort (fun a b : κ × ν => a.1 ≤ b.1)
        (dict.entries.map fun item => (item.1, item.2))).map Prod.fst
      rwa [List.map_map] at hsort
    exact hperm.nodup_iff.mpr hkeys
  exact (hle.and hne).imp fun h => lt_of_le_of_ne h.1 h.2

/-- Dictionaries that find the same have the same items in the same order. -/
theorem sorted_congr (h : ∀ key, dict.lookup key = dict'.lookup key) : sorted dict = sorted dict' := by
  have hnodup (dict : AList fun _ : κ => ν) : (sorted dict).Nodup :=
    (sorted_keys dict).imp fun hlt he => absurd (congrArg Prod.fst he) hlt.ne
  have hperm : (sorted dict).Perm (sorted dict') := by
    apply (List.perm_ext_iff_of_nodup (hnodup dict) (hnodup dict')).mpr
    rintro ⟨key, value⟩
    rw [mem_sorted, mem_sorted, h]
  apply hperm.eq_of_pairwise _ (sorted_keys dict) (sorted_keys dict')
  intro a b _ _ hab hba
  exact absurd hba hab.asymm

end Sorted

end DigStore.Library.Dict
