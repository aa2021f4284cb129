import Mathlib.Data.Nat.Digits.Defs

/-!
# Hexadecimal numbers in texts

A text is a list of ASCII codes. `leading` reads the digits it starts with, `value` is the number
they stand for, and `accumulate` computes it in `w` bits as a loop over the text does.
`toNat_accumulate` says what gets lost. `print` writes a number, and `value_leading_print` reads it
back.
-/

namespace Ldd3.Hex

/-- The value of a digit, in either case. -/
def digitVal (c : UInt8) : Option Nat :=
  if 48 ≤ c ∧ c ≤ 57 then some (c.toNat - 48)
  else if 65 ≤ c ∧ c ≤ 70 then some (c.toNat - 55)
  else if 97 ≤ c ∧ c ≤ 102 then some (c.toNat - 87)
  else none

/-- The digit with a value below sixteen. -/
def digit (d : Nat) : UInt8 := UInt8.ofNat (if d < 10 then 48 + d else 87 + d)

/-- A digit has its value. -/
theorem digit_val_digit {d : Nat} (h : d < 16) : digitVal (digit d) = some d := by
  have hall : ∀ d < 16, digitVal (digit d) = some d := by decide
  exact hall d h

/-- The digits a text starts with. -/
def leading : List UInt8 → List Nat
  | [] => []
  | c :: rest =>
      match digitVal c with
      | some d => d :: leading rest
      | none => []

/-- One more digit after a number. -/
def shift (n d : Nat) : Nat := n * 16 + d

/-- The number with the given digits, the most significant one first. -/
def value (ds : List Nat) : Nat := ds.foldl shift 0

/-- The number a text starts with, in `w` bits and after the digits in `acc`. -/
def accumulate {w : Nat} : List UInt8 → BitVec w → BitVec w
  | [], acc => acc
  | c :: rest, acc =>
      match digitVal c with
      | some d => accumulate rest (acc * 16 + BitVec.ofNat w d)
      | none => acc

/-- Further digits see of a number only its residue. -/
theorem foldl_shift_mod (ds : List Nat) (n m : Nat) :
    ds.foldl shift (n % m) % m = ds.foldl shift n % m := by
  induction ds generalizing n with
  | nil => exact Nat.mod_mod n m
  | cons d ds ih =>
      have hshift : shift (n % m) d % m = shift n d % m := by
        simp only [shift, Nat.add_mod, Nat.mul_mod, Nat.mod_mod]
      rw [List.foldl_cons, List.foldl_cons, ← ih (shift (n % m) d), hshift, ih]

/-- The loop computes the number up to multiples of `2 ^ w`. -/
theorem toNat_accumulate {w : Nat} (text : List UInt8) (acc : BitVec w) :
    (accumulate text acc).toNat = (leading text).foldl shift acc.toNat % 2 ^ w := by
  induction text generalizing acc with
  | nil => exact (Nat.mod_eq_of_lt acc.isLt).symm
  | cons c rest ih =>
      unfold accumulate leading
      cases digitVal c with
      | none => exact (Nat.mod_eq_of_lt acc.isLt).symm
      | some d =>
          have hshift : (acc * 16 + BitVec.ofNat w d).toNat = shift acc.toNat d % 2 ^ w := by
            simp [shift, Nat.add_mod, Nat.mul_mod]
          show (accumulate rest (acc * 16 + BitVec.ofNat w d)).toNat = _
          rw [ih, hshift, foldl_shift_mod, List.foldl_cons]

/-- The text of a number, without leading zeros and in lower case. -/
def print (n : Nat) : List UInt8 :=
  if n = 0 then [digit 0] else (Nat.digits 16 n).reverse.map digit

/-- The digits of a text that was put together from digits. -/
theorem leading_map_digit {ds : List Nat} (h : ∀ d ∈ ds, d < 16) (rest : List UInt8) :
    leading (ds.map digit ++ rest) = ds ++ leading rest := by
  induction ds with
  | nil => rfl
  | cons d ds ih =>
      have hd := digit_val_digit (h d List.mem_cons_self)
      rw [List.map_cons, List.cons_append, leading, hd, List.cons_append,
        ← ih fun d' hd' => h d' (List.mem_cons_of_mem _ hd')]

/-- The number with the digits of a number is that number. -/
theorem value_reverse_digits (n : Nat) : value (Nat.digits 16 n).reverse = n := by
  have hshift : (fun d n => shift n d) = fun d n : Nat => d + 16 * n := by
    funext d n
    unfold shift
    omega
  calc value (Nat.digits 16 n).reverse
      = (Nat.digits 16 n).foldr (fun d n => d + 16 * n) 0 := by
        rw [value, List.foldl_reverse, hshift]
    _ = Nat.ofDigits 16 (Nat.digits 16 n) := (Nat.ofDigits_eq_foldr 16 _).symm
    _ = n := Nat.ofDigits_digits 16 n

/-- What is printed are the digits of the number, one at least. -/
theorem print_eq (n : Nat) : ∃ ds, ds ≠ [] ∧ (∀ d ∈ ds, d < 16) ∧ value ds = n ∧
    print n = ds.map digit := by
  unfold print
  split
  · rename_i hzero
    exact ⟨[0], by simp, by simp, hzero.symm, rfl⟩
  · rename_i hpos
    refine ⟨(Nat.digits 16 n).reverse, ?_, fun d hd => ?_, value_reverse_digits n, rfl⟩
    · rw [ne_eq, List.reverse_eq_nil_iff]
      exact Nat.digits_ne_nil_iff_ne_zero.mpr hpos
    · exact Nat.digits_lt_base (by decide) (List.mem_reverse.mp hd)

/-- A printed number is read back, whatever follows that is not a digit. -/
theorem value_leading_print (n : Nat) (rest : List UInt8) (hrest : leading rest = []) :
    value (leading (print n ++ rest)) = n := by
  obtain ⟨ds, -, hlt, hvalue, hprint⟩ := print_eq n
  rw [hprint, leading_map_digit hlt, hrest, List.append_nil, hvalue]

end Ldd3.Hex
