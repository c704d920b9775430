import Mathlib.Data.Nat.Digits.Lemmas

/-!
# Little-endian bytes

A number in a fixed number of bytes, least significant first. Bytes are digits to the base 256,
so the reading is `Nat.ofDigits`. `k` bytes hold exactly the numbers below `256 ^ k`: writing and
reading are inverse to each other there.
-/

set_option autoImplicit false

namespace LittleEndian

/-- The low `k` bytes of `n`. -/
def toBytes (k n : Nat) : List UInt8 :=
  (List.range k).map fun i => UInt8.ofNat (n / 256 ^ i)

/-- The number in the bytes. -/
def ofBytes (bs : List UInt8) : Nat := Nat.ofDigits 256 (bs.map UInt8.toNat)

@[simp] theorem toBytes_length (k n : Nat) : (toBytes k n).length = k := by
  simp [toBytes]

@[simp] theorem toBytes_zero (n : Nat) : toBytes 0 n = [] := rfl

@[simp] theorem ofBytes_nil : ofBytes [] = 0 := rfl

theorem ofBytes_cons (b : UInt8) (bs : List UInt8) :
    ofBytes (b :: bs) = b.toNat + 256 * ofBytes bs := by
  simp [ofBytes, Nat.ofDigits_cons]

/-- The first byte, and the number without it. -/
theorem toBytes_succ (k n : Nat) :
    toBytes (k + 1) n = UInt8.ofNat n :: toBytes k (n / 256) := by
  unfold toBytes
  rw [List.range_succ_eq_map, List.map_cons, List.map_map]
  congr 1
  · rw [pow_zero, Nat.div_one]
  · apply List.map_congr_left
    intro i _
    simp only [Function.comp_apply, Nat.succ_eq_add_one]
    rw [pow_succ', Nat.div_div_eq_div_mul]

theorem ofBytes_lt (bs : List UInt8) : ofBytes bs < 256 ^ bs.length := by
  have hdigits : ∀ d ∈ bs.map UInt8.toNat, d < 256 := by
    intro d hd
    obtain ⟨b, -, rfl⟩ := List.mem_map.mp hd
    exact b.toNat_lt
  have h := Nat.ofDigits_lt_base_pow_length (by decide : 1 < 256) hdigits
  simpa only [ofBytes, List.length_map] using h

/-- What was written is read back, as far as it fits. -/
theorem ofBytes_toBytes (k n : Nat) : ofBytes (toBytes k n) = n % 256 ^ k := by
  induction k generalizing n with
  | zero => rw [toBytes_zero, ofBytes_nil, pow_zero, Nat.mod_one]
  | succ k ih =>
    have hbyte : (UInt8.ofNat n).toNat = n % 256 := by simp
    rw [toBytes_succ, ofBytes_cons, ih, hbyte, pow_succ', Nat.mod_mul]

/-- Bytes are the ones their number is written in. -/
theorem toBytes_ofBytes (bs : List UInt8) : toBytes bs.length (ofBytes bs) = bs := by
  induction bs with
  | nil => rfl
  | cons b bs ih =>
    have hb := b.toNat_lt
    have hhead : UInt8.ofNat (b.toNat + 256 * ofBytes bs) = b := by
      apply UInt8.toNat.inj
      simp
    have htail : (b.toNat + 256 * ofBytes bs) / 256 = ofBytes bs := by omega
    rw [List.length_cons, toBytes_succ, ofBytes_cons, hhead, htail, ih]

end LittleEndian
