import Mathlib.Data.Nat.Digits.Lemmas

/-! # Byte order

The bytes of a number of `n` bytes, the low one first (`bytes`), the number that bytes denote
(`ofBytes`), and the number whose bytes are those of another one backwards (`swap`). -/

namespace ToolsCxx.Lib.ByteOrder

variable {n : ℕ} {l : List (BitVec 8)}

def bytes (v : BitVec (8 * n)) : List (BitVec 8) :=
  (Nat.digitsAppend 256 n v.toNat).map (BitVec.ofNat 8)

def ofBytes (n : ℕ) (l : List (BitVec 8)) : BitVec (8 * n) :=
  BitVec.ofNat (8 * n) (Nat.ofDigits 256 (l.map BitVec.toNat))

def swap (v : BitVec (8 * n)) : BitVec (8 * n) := ofBytes n (bytes v).reverse

theorem two_pow_eq (n : ℕ) : 2 ^ (8 * n) = 256 ^ n := Nat.pow_mul 2 8 n

theorem length_bytes (v : BitVec (8 * n)) : (bytes v).length = n := by
  have hlt : v.toNat < 256 ^ n := two_pow_eq n ▸ v.isLt
  unfold bytes
  rw [List.length_map, Nat.length_digitsAppend (by decide) n hlt]

/-- The digits of a number are those of its bytes. -/
theorem toNat_bytes (v : BitVec (8 * n)) :
    (bytes v).map BitVec.toNat = Nat.digitsAppend 256 n v.toNat := by
  unfold bytes
  rw [List.map_map, List.map_congr_left fun i hi => ?_, List.map_id]
  have hlt : i < 256 := Nat.lt_of_mem_digitsAppend (by decide) n i hi
  exact (BitVec.toNat_ofNat ..).trans (Nat.mod_eq_of_lt hlt)

theorem ofBytes_bytes (v : BitVec (8 * n)) : ofBytes n (bytes v) = v := by
  have hinv := (Nat.setInvOn_digitsAppend_ofDigits (b := 256) (by decide) n).2
  have hdigits : Nat.ofDigits 256 (Nat.digitsAppend 256 n v.toNat) = v.toNat :=
    hinv (two_pow_eq n ▸ v.isLt)
  unfold ofBytes
  rw [toNat_bytes, hdigits, BitVec.ofNat_toNat, BitVec.setWidth_eq]

theorem bytes_ofBytes (h : l.length = n) : bytes (ofBytes n l) = l := by
  have hdigits : (l.map BitVec.toNat).length = n ∧ ∀ i ∈ l.map BitVec.toNat, i < 256 := by
    refine ⟨(List.length_map _).trans h, fun i hi => ?_⟩
    obtain ⟨b, -, rfl⟩ := List.mem_map.mp hi
    exact b.isLt
  have hlt : Nat.ofDigits 256 (l.map BitVec.toNat) < 2 ^ (8 * n) := by
    rw [two_pow_eq]
    exact Nat.mapsTo_ofDigits (by decide) n hdigits
  have hinv := (Nat.setInvOn_digitsAppend_ofDigits (b := 256) (by decide) n).1
  unfold bytes ofBytes
  rw [BitVec.toNat_ofNat, Nat.mod_eq_of_lt hlt, hinv hdigits, List.map_map]
  exact (List.map_congr_left fun b _ => BitVec.eq_of_toNat_eq
    ((BitVec.toNat_ofNat ..).trans (Nat.mod_eq_of_lt b.isLt))).trans (List.map_id l)

theorem bytes_swap (v : BitVec (8 * n)) : bytes (swap v) = (bytes v).reverse :=
  bytes_ofBytes (by rw [List.length_reverse, length_bytes])

theorem swap_swap (v : BitVec (8 * n)) : swap (swap v) = v := by
  unfold swap
  rw [bytes_ofBytes (by rw [List.length_reverse, length_bytes]), List.reverse_reverse,
    ofBytes_bytes]

end ToolsCxx.Lib.ByteOrder
