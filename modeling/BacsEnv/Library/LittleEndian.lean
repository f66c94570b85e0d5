import Mathlib.Data.Nat.Digits.Lemmas
import Mathlib.Tactic.Ring

/-!
# Fixed-width little-endian codes

`encode w n` is the object representation of the unsigned integer `n` in `w`
bytes, lowest byte first, and `decode` reads such a representation back. The
code is a bijection between the numbers below `256 ^ w` and the byte strings of
length `w`; above that bound `encode` keeps the number modulo `256 ^ w`.
-/

set_option autoImplicit false

namespace BacsEnv.LittleEndian

/-- The `w` low bytes of `n`, lowest first. -/
def encode : ℕ → ℕ → List UInt8
  | 0, _ => []
  | w + 1, n => UInt8.ofNat (n % 256) :: encode w (n / 256)

/-- The number a byte string stands for, lowest byte first. -/
def decode (bytes : List UInt8) : ℕ :=
  Nat.ofDigits 256 (bytes.map UInt8.toNat)

@[simp] theorem decode_nil : decode [] = 0 := rfl

@[simp] theorem decode_cons (b : UInt8) (bytes : List UInt8) :
    decode (b :: bytes) = b.toNat + 256 * decode bytes := by
  simp [decode, Nat.ofDigits_cons]

/-- A code has exactly its width. -/
@[simp] theorem length_encode (w n : ℕ) : (encode w n).length = w := by
  induction w generalizing n with
  | zero => rfl
  | succ w ih => simp [encode, ih]

/-- Decoding a code gives the number modulo the range of the width. -/
theorem decode_encode (w n : ℕ) : decode (encode w n) = n % 256 ^ w := by
  induction w generalizing n with
  | zero => simp [encode, Nat.mod_one]
  | succ w ih =>
      have hlow : (UInt8.ofNat (n % 256)).toNat = n % 256 := by simp
      rw [encode, decode_cons, hlow, ih, pow_succ, Nat.mul_comm (256 ^ w), Nat.mod_mul]

/-- Decoding a code of a number in range gives the number. -/
theorem decode_encode_of_lt {w n : ℕ} (h : n < 256 ^ w) : decode (encode w n) = n := by
  rw [decode_encode, Nat.mod_eq_of_lt h]

/-- Numbers in range with the same code are the same. -/
theorem encode_inj_of_lt {w m n : ℕ} (hm : m < 256 ^ w) (hn : n < 256 ^ w)
    (h : encode w m = encode w n) : m = n := by
  have hdecode := congrArg decode h
  rwa [decode_encode_of_lt hm, decode_encode_of_lt hn] at hdecode

/-- Every byte string is the code of the number it stands for. -/
theorem encode_decode (bytes : List UInt8) : encode bytes.length (decode bytes) = bytes := by
  induction bytes with
  | nil => rfl
  | cons b bytes ih =>
      have hb : b.toNat < 256 := UInt8.toNat_lt b
      have hlow : (b.toNat + 256 * decode bytes) % 256 = b.toNat := by omega
      have hhigh : (b.toNat + 256 * decode bytes) / 256 = decode bytes := by omega
      rw [List.length_cons, encode, decode_cons, hlow, hhigh, ih, UInt8.ofNat_toNat]

end BacsEnv.LittleEndian
