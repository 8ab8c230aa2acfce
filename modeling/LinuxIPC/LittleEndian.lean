import Mathlib

/-!
# Little-endian numbers

A number of `n` bytes is stored with its least significant byte first, so that bytes missing at the
end count as zeros.
-/

namespace LittleEndian

def value : List UInt8 → ℕ
  | [] => 0
  | b :: bs => b.toNat + 256 * value bs

def encode : ℕ → ℕ → List UInt8
  | 0, _ => []
  | n + 1, v => UInt8.ofNat v :: encode n (v / 256)

@[simp] theorem length_encode (n v : ℕ) : (encode n v).length = n := by
  induction n generalizing v with
  | zero => rfl
  | succ n ih => rw [encode, List.length_cons, ih]

theorem value_encode (n v : ℕ) : value (encode n v) = v % 256 ^ n := by
  induction n generalizing v with
  | zero => simp [encode, value, Nat.mod_one]
  | succ n ih =>
      rw [encode, value, ih, pow_succ', Nat.mod_mul]
      simp

theorem encode_zero (n : ℕ) : encode n 0 = List.replicate n 0 := by
  induction n with
  | zero => rfl
  | succ n ih =>
      rw [encode, Nat.zero_div, ih, List.replicate_succ]
      rfl

theorem value_replicate_zero (k : ℕ) : value (List.replicate k 0) = 0 := by
  induction k with
  | zero => rfl
  | succ k ih =>
      rw [List.replicate_succ, value, ih]
      rfl

theorem value_append_zeros (bs : List UInt8) (k : ℕ) :
    value (bs ++ List.replicate k 0) = value bs := by
  induction bs with
  | nil => exact value_replicate_zero k
  | cons b bs ih => rw [List.cons_append, value, ih, value]

end LittleEndian
