import Mathlib.Data.List.Basic

namespace DigStore.Library.Hex

/-- The two lowercase digits of a byte, high nibble first. -/
def digits (b : UInt8) : List Char := [Nat.digitChar (b.toNat / 16), Nat.digitChar (b.toNat % 16)]

def encode (bytes : List UInt8) : String := String.ofList (bytes.flatMap digits)

theorem foldl_digits (bytes : List UInt8) (out : String) :
    bytes.foldl (fun out b => out ++ String.ofList (digits b)) out = out ++ encode bytes := by
  induction bytes generalizing out with
  | nil => simp [encode]
  | cons b bytes ih => simp [ih, encode, String.append_assoc]

def alphabet : List Char := "0123456789abcdef".toList

/-- The bytes that a text of digits names, two digits a byte. -/
def readDigits : List Char → Option (List UInt8)
  | [] => some []
  | [_] => none
  | high :: low :: rest => do
    let h ← alphabet.idxOf? high
    let l ← alphabet.idxOf? low
    let bytes ← readDigits rest
    return UInt8.ofNat (16 * h + l) :: bytes

def decode (text : String) : Option (List UInt8) := readDigits text.toList

theorem idxOf_digitChar : ∀ n < 16, alphabet.idxOf? (Nat.digitChar n) = some n := by decide

theorem digitChar_mem : ∀ n < 16, Nat.digitChar n ∈ alphabet := by decide

theorem alphabet_eq : alphabet = (List.range 16).map Nat.digitChar := by decide

theorem exists_digitChar {c : Char} (h : c ∈ alphabet) : ∃ n, n < 16 ∧ Nat.digitChar n = c := by
  rw [alphabet_eq] at h
  obtain ⟨n, hn, rfl⟩ := List.mem_map.mp h
  exact ⟨n, List.mem_range.mp hn, rfl⟩

theorem toNat_div_lt (b : UInt8) : b.toNat / 16 < 16 := by
  have hb := b.toNat_lt
  omega

theorem readDigits_pair {h l : ℕ} (hh : h < 16) (hl : l < 16) (rest : List Char) :
    readDigits (Nat.digitChar h :: Nat.digitChar l :: rest) =
      (readDigits rest).map (UInt8.ofNat (16 * h + l) :: ·) := by
  rw [readDigits, idxOf_digitChar h hh, idxOf_digitChar l hl]
  cases readDigits rest <;> rfl

theorem readDigits_digits (bytes : List UInt8) : readDigits (bytes.flatMap digits) = some bytes := by
  induction bytes with
  | nil => rfl
  | cons b bytes ih =>
      rw [List.flatMap_cons]
      change readDigits (Nat.digitChar (b.toNat / 16) :: Nat.digitChar (b.toNat % 16) :: bytes.flatMap digits) = _
      rw [readDigits_pair (toNat_div_lt b) (Nat.mod_lt _ (by decide)), ih, Nat.div_add_mod, UInt8.ofNat_toNat]
      rfl

theorem decode_encode (bytes : List UInt8) : decode (encode bytes) = some bytes := by
  rw [decode, encode, String.toList_ofList, readDigits_digits]

theorem encode_injective : Function.Injective encode := by
  intro bytes bytes' h
  have hd := decode_encode bytes
  rw [h, decode_encode] at hd
  exact (Option.some.inj hd).symm

theorem length_flatMap_digits (bytes : List UInt8) : (bytes.flatMap digits).length = 2 * bytes.length := by
  induction bytes with
  | nil => rfl
  | cons b bytes ih =>
      rw [List.flatMap_cons, List.length_append, ih, List.length_cons]
      simp only [digits, List.length_cons, List.length_nil]
      omega

theorem length_encode (bytes : List UInt8) : (encode bytes).length = 2 * bytes.length := by
  rw [encode, String.length_ofList, length_flatMap_digits]

theorem encode_mem (bytes : List UInt8) : ∀ c ∈ (encode bytes).toList, c ∈ alphabet := by
  intro c hc
  rw [encode, String.toList_ofList] at hc
  obtain ⟨b, -, hc⟩ := List.mem_flatMap.mp hc
  have hlow : b.toNat % 16 < 16 := Nat.mod_lt _ (by decide)
  rcases List.mem_pair.mp hc with rfl | rfl
  · exact digitChar_mem _ (toNat_div_lt b)
  · exact digitChar_mem _ hlow

theorem digits_ofNat {h l : ℕ} (hh : h < 16) (hl : l < 16) :
    digits (UInt8.ofNat (16 * h + l)) = [Nat.digitChar h, Nat.digitChar l] := by
  have hn : (UInt8.ofNat (16 * h + l)).toNat = 16 * h + l := UInt8.toNat_ofNat_of_lt' (by simp [UInt8.size]; omega)
  rw [digits, hn]
  congr 2
  · omega
  · congr 1
    omega

/-- Every text of an even number of digits is the encoding of some bytes. -/
theorem exists_encode (k : ℕ) (cs : List Char) (hlen : cs.length = 2 * k) (hmem : ∀ c ∈ cs, c ∈ alphabet) :
    ∃ bytes : List UInt8, bytes.length = k ∧ bytes.flatMap digits = cs := by
  induction k generalizing cs with
  | zero => exact ⟨[], rfl, (List.length_eq_zero_iff.mp hlen).symm⟩
  | succ k ih =>
      match cs with
      | [] => cases hlen
      | [_] =>
          rw [List.length_singleton] at hlen
          omega
      | high :: low :: rest =>
          obtain ⟨h, hh, rfl⟩ := exists_digitChar (hmem high (by simp))
          obtain ⟨l, hl, rfl⟩ := exists_digitChar (hmem low (by simp))
          obtain ⟨bytes, hk, rfl⟩ := ih rest (by simp at hlen; omega) (fun c hc => hmem c (by simp [hc]))
          refine ⟨UInt8.ofNat (16 * h + l) :: bytes, by rw [List.length_cons, hk], ?_⟩
          rw [List.flatMap_cons, digits_ofNat hh hl]
          rfl

end DigStore.Library.Hex
