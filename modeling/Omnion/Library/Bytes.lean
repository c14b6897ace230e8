import Mathlib.Data.List.Induction
import Mathlib.Data.Nat.Bitwise

/-!
# Numbers as bytes

A number in a given count of bytes, the greatest first, and the number some bytes stand for.
-/

namespace Bytes

variable {count n : ℕ}

/-- The `count` lowest bytes of a number, the greatest first. -/
def toBe : ℕ → ℕ → List UInt8
  | 0, _ => []
  | count + 1, n => toBe count (n / 256) ++ [UInt8.ofNat n]

/-- A number from its bytes, the greatest first. -/
def ofBe (raw : List UInt8) : ℕ := raw.foldl (fun n byte => n * 256 + byte.toNat) 0

@[simp] theorem length_toBe (count n : ℕ) : (toBe count n).length = count := by
  induction count generalizing n with
  | zero => rfl
  | succ count ih => simp [toBe, ih]

theorem ofBe_toBe_mod (count n : ℕ) : ofBe (toBe count n) = n % 256 ^ count := by
  induction count generalizing n with
  | zero => rw [Nat.pow_zero, Nat.mod_one]; rfl
  | succ count ih =>
    have happend : ofBe (toBe (count + 1) n) = ofBe (toBe count (n / 256)) * 256 + n % 256 := by
      simp [ofBe, toBe]
    rw [happend, ih, Nat.pow_succ', Nat.mod_mul]
    omega

theorem ofBe_toBe (h : n < 256 ^ count) : ofBe (toBe count n) = n := by
  rw [ofBe_toBe_mod, Nat.mod_eq_of_lt h]

theorem toBe_add (upper lower n : ℕ) : toBe (upper + lower) n = toBe upper (n / 256 ^ lower) ++ toBe lower n := by
  induction lower generalizing n with
  | zero => simp [toBe]
  | succ lower ih => rw [← Nat.add_assoc, toBe, ih, toBe, Nat.div_div_eq_div_mul, ← Nat.pow_succ', List.append_assoc]

theorem toBe_succ (count n : ℕ) : toBe (count + 1) n = UInt8.ofNat (n / 256 ^ count) :: toBe count n := by
  induction count generalizing n with
  | zero => simp [toBe]
  | succ count ih => rw [toBe, ih, toBe, Nat.div_div_eq_div_mul, ← Nat.pow_succ', List.cons_append]

@[simp] theorem ofBe_append_singleton (raw : List UInt8) (byte : UInt8) :
    ofBe (raw ++ [byte]) = ofBe raw * 256 + byte.toNat := by
  simp [ofBe]

@[simp] theorem toBe_ofBe (raw : List UInt8) : toBe raw.length (ofBe raw) = raw := by
  induction raw using List.reverseRecOn with
  | nil => rfl
  | append_singleton raw byte ih =>
    have hbyte := byte.toNat_lt
    have hrest : (ofBe raw * 256 + byte.toNat) / 256 = ofBe raw := by omega
    have hlow : UInt8.ofNat (ofBe raw * 256 + byte.toNat) = byte := by
      rw [← UInt8.toNat_inj, UInt8.toNat_ofNat']
      omega
    rw [ofBe_append_singleton, List.length_append, List.length_singleton, toBe, hrest, hlow, ih]

theorem foldl_shiftLeft (raw : List UInt8) : raw.foldl (fun n byte => n <<< 8 ||| byte.toNat) 0 = ofBe raw := by
  rw [ofBe]
  congr 1
  funext n byte
  rw [← Nat.shiftLeft_add_eq_or_of_lt byte.toNat_lt, Nat.shiftLeft_eq]

theorem ofBe_lt (raw : List UInt8) : ofBe raw < 256 ^ raw.length := by
  induction raw using List.reverseRecOn with
  | nil => exact Nat.one_pos
  | append_singleton raw byte ih =>
    have hbyte := byte.toNat_lt
    rw [ofBe_append_singleton, List.length_append, List.length_singleton, Nat.pow_succ]
    omega

end Bytes
