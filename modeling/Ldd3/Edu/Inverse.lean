import Mathlib.Algebra.Group.Nat.Defs
import Ldd3.Hex
import Ldd3.Kernel

/-!
# The inverse attribute of edu

`inverse_store` reads a hexadecimal number from a page and writes it to a register of the device,
and `inverse_show` prints what the register then holds, the complement. `sscanf` reports how many
numbers it has read, but nobody looks: without a number the local variable `val` keeps what was on
the stack, and of a long number only 64 bits are left. `number` is what the page says, `sscanf` what
the driver gets, and `inverse_store_iff` compares the two.
-/

namespace Ldd3.Edu

/-- What gets written into an attribute at a time. -/
structure Page where
  text : List UInt8
  length_le : text.length ≤ 4096
  deriving DecidableEq, Repr

/-- `isspace`. -/
def isspace (c : UInt8) : Bool := (9 ≤ c && c ≤ 13) || c == 32 || c == 160

/-- `skip_spaces`. -/
def skipSpaces (text : List UInt8) : List UInt8 := text.dropWhile isspace

/-- `isxdigit(*str)`. -/
def startsWithDigit (str : List UInt8) : Bool := (str.head?.bind Hex.digitVal).isSome

/-- `_parse_integer_fixup_radix` for base 16: a leading `0x` or `0X` is skipped. -/
def fixupRadix : List UInt8 → List UInt8
  | zero :: x :: rest =>
      if zero = 48 ∧ (x = 88 ∨ x = 120) then rest else zero :: x :: rest
  | str => str

/-- `sscanf(page, "%llx", &val)`: the new contents of `val`. The end of the text acts like any other
character that is not a digit, as the NUL behind it does. -/
def sscanf (text : List UInt8) (val : BitVec 64) : BitVec 64 :=
  let str := skipSpaces text
  if startsWithDigit str then Hex.accumulate (fixupRadix str) 0 else val

/-- The hexadecimal number a text starts with, after white space and an optional `0x`. -/
def number (text : List UInt8) : Option Nat :=
  let str := skipSpaces text
  if startsWithDigit str then some (Hex.value (Hex.leading (fixupRadix str))) else none

/-- `UINT_MAX`. -/
def uintMax : Nat := 2 ^ 32 - 1

/-- What a call of `inverse_store` does: the value it writes to the register, if any, and its
result. -/
structure StoreResult where
  written : Option (BitVec 32)
  ret : Except Errno Nat
  deriving DecidableEq

/-- `inverse_store`, with the initial contents of the local variable `val`. -/
def inverseStore (page : Page) (val : BitVec 64) : StoreResult :=
  let val := sscanf page.text val
  if val.toNat > uintMax then ⟨none, .error .EINVAL⟩
  else ⟨some (val.setWidth 32), .ok page.text.length⟩

/-- The last value written to the register, after a call of `inverse_store`. -/
def StoreResult.reg (r : StoreResult) (reg : BitVec 32) : BitVec 32 := r.written.getD reg

/-- `readl` of the register: the device returns the complement of the last value written. -/
def readInverse (reg : BitVec 32) : BitVec 32 := ~~~ reg

/-- `inverse_show`: the text it prints. -/
def inverseShow (reg : BitVec 32) : List UInt8 := Hex.print (readInverse reg).toNat ++ [10]

/-- A text that `inverse_show` has printed starts with the number it was printed from. -/
theorem number_inverse_show (reg : BitVec 32) :
    number (inverseShow reg) = some (readInverse reg).toNat := by
  have hdigit : ∀ d < 16, isspace (Hex.digit d) = false ∧
      ¬ (Hex.digit d = 88 ∨ Hex.digit d = 120) := by decide
  have hvalue := Hex.value_leading_print (readInverse reg).toNat [10] rfl
  obtain ⟨ds, hne, hlt, -, hprint⟩ := Hex.print_eq (readInverse reg).toNat
  unfold inverseShow
  cases ds with
  | nil => exact absurd rfl hne
  | cons d ds =>
      have hd := hlt d List.mem_cons_self
      have hskip : skipSpaces (Hex.print (readInverse reg).toNat ++ [10]) =
          Hex.print (readInverse reg).toNat ++ [10] := by
        rw [hprint, List.map_cons, List.cons_append]
        exact List.dropWhile_cons_of_neg (by simp [(hdigit d hd).1])
      have hfixup : fixupRadix (Hex.print (readInverse reg).toNat ++ [10]) =
          Hex.print (readInverse reg).toNat ++ [10] := by
        -- the second character is a digit or the line feed
        rw [hprint]
        cases ds with
        | nil => exact if_neg (by simp)
        | cons d' ds =>
            have hd' := (hdigit d' (hlt d' (by simp))).2
            exact if_neg fun h => hd' h.2
      have hstart : startsWithDigit (Hex.print (readInverse reg).toNat ++ [10]) = true := by
        rw [hprint]
        show (Hex.digitVal (Hex.digit d)).isSome = true
        rw [Hex.digit_val_digit hd]
        rfl
      simp only [number, hskip, hfixup, hstart, if_true, hvalue]

/-- The driver gets 64 bits of the number, or what was in `val`. -/
theorem toNat_sscanf (text : List UInt8) (val : BitVec 64) :
    (sscanf text val).toNat =
      match number text with
      | some n => n % 2 ^ 64
      | none => val.toNat := by
  unfold sscanf number
  dsimp only
  split
  · exact Hex.toNat_accumulate _ 0
  · rfl

/-- `inverse_store` writes the number of the page, which a following `inverse_show` complements, if
the page has one of 32 bits, and otherwise it fails and writes nothing. -/
structure StoresParsed (page : Page) (val : BitVec 64) (reg : BitVec 32) : Prop where
  writes : (inverseStore page val).written ≠ none ↔
    ∃ n, number page.text = some n ∧ n ≤ uintMax
  parsed : ∀ n, number page.text = some n → n ≤ uintMax →
    (inverseStore page val).written = some (BitVec.ofNat 32 n) ∧
      inverseShow ((inverseStore page val).reg reg) = Hex.print (uintMax - n) ++ [10] ∧
      number (inverseShow ((inverseStore page val).reg reg)) = some (uintMax - n)
  refuses : (¬ ∃ n, number page.text = some n ∧ n ≤ uintMax) →
    (inverseStore page val).ret = .error .EINVAL ∧ (inverseStore page val).reg reg = reg

/-- The page has a number that does not lose its leading digits in 64 bits to look like one of 32
bits, or it has none and `val` happens to be too large. -/
def Page.Parses (page : Page) (val : BitVec 64) : Prop :=
  match number page.text with
  | some n => n ≤ uintMax ∨ uintMax < n % 2 ^ 64
  | none => uintMax < val.toNat

/-- The complement of a number of 32 bits. -/
theorem toNat_read_inverse {n : Nat} (h : n ≤ uintMax) :
    (readInverse (BitVec.ofNat 32 n)).toNat = uintMax - n := by
  unfold uintMax at h ⊢
  rw [readInverse, BitVec.toNat_not, BitVec.toNat_ofNat]
  omega

variable {page : Page} {val : BitVec 64}

/-- A call that fails is right if the page has no number of 32 bits. -/
theorem stores_parsed_of_refused (hstore : inverseStore page val = ⟨none, .error .EINVAL⟩)
    (reg : BitVec 32) :
    StoresParsed page val reg ↔ ¬ ∃ n, number page.text = some n ∧ n ≤ uintMax := by
  constructor
  · intro h hnumber
    exact absurd (congrArg StoreResult.written hstore) (h.writes.mpr hnumber)
  · intro hnone
    constructor
    · rw [hstore]
      exact iff_of_false (fun h => h rfl) hnone
    · exact fun n hn hle => absurd ⟨n, hn, hle⟩ hnone
    · intro _
      rw [hstore]
      exact ⟨rfl, rfl⟩

/-- A call that writes a value is right if the value is the number of the page. -/
theorem stores_parsed_of_written {m : Nat} {ret : Except Errno Nat}
    (hstore : inverseStore page val = ⟨some (BitVec.ofNat 32 m), ret⟩) (hm : m ≤ uintMax)
    (reg : BitVec 32) : StoresParsed page val reg ↔ number page.text = some m := by
  constructor
  · intro h
    obtain ⟨n, hn, hle⟩ := h.writes.mp (by rw [hstore]; exact Option.some_ne_none _)
    have hwritten := (h.parsed n hn hle).1
    rw [hstore] at hwritten
    have hnat := congrArg BitVec.toNat (Option.some.inj hwritten)
    rw [BitVec.toNat_ofNat, BitVec.toNat_ofNat] at hnat
    unfold uintMax at hle hm
    obtain rfl : m = n := by omega
    exact hn
  · intro hnumber
    constructor
    · rw [hstore]
      exact iff_of_true (Option.some_ne_none _) ⟨m, hnumber, hm⟩
    · intro n hn hle
      obtain rfl : m = n := Option.some.inj (hnumber.symm.trans hn)
      have hcomplement := toNat_read_inverse hm
      rw [hstore]
      refine ⟨rfl, ?_, ?_⟩
      · show Hex.print (readInverse (BitVec.ofNat 32 m)).toNat ++ [10] = _
        rw [hcomplement]
      · exact (number_inverse_show _).trans (congrArg some hcomplement)
    · exact fun hnone => absurd ⟨m, hnumber, hm⟩ hnone

/-- Both cases, for the value `m` that the driver gets: it is refused and the page has no number of
32 bits, or it is written and is the number of the page. -/
theorem stores_parsed_iff {m : Nat} (hm : (sscanf page.text val).toNat = m) (reg : BitVec 32) :
    StoresParsed page val reg ↔
      (uintMax < m ∧ ¬ ∃ n, number page.text = some n ∧ n ≤ uintMax) ∨
        (m ≤ uintMax ∧ number page.text = some m) := by
  subst hm
  rcases Nat.lt_or_ge uintMax (sscanf page.text val).toNat with hlarge | hsmall
  · have hstore : inverseStore page val = ⟨none, .error .EINVAL⟩ := if_pos hlarge
    rw [stores_parsed_of_refused hstore, and_iff_right hlarge,
      or_iff_left fun h => absurd h.1 (Nat.not_le.mpr hlarge)]
  · have hstore : inverseStore page val =
        ⟨some (BitVec.ofNat 32 (sscanf page.text val).toNat), .ok page.text.length⟩ :=
      if_neg (Nat.not_lt.mpr hsmall)
    rw [stores_parsed_of_written hstore hsmall, and_iff_right hsmall,
      or_iff_right fun h => absurd h.1 (Nat.not_lt.mpr hsmall)]

/-- What gets parsed. For every page, all initial contents of `val` and every state of the register,
`inverse_store` writes what the page says if and only if the page has a number of 32 bits, or one
that is too large in its lower 64 bits as well, or none while `val` is too large. -/
theorem inverse_store_iff (page : Page) (val : BitVec 64) (reg : BitVec 32) :
    StoresParsed page val reg ↔ page.Parses val := by
  have hscan := toNat_sscanf page.text val
  rw [stores_parsed_iff hscan, Page.Parses]
  cases number page.text with
  | none => simp
  | some n =>
      simp only [Option.some.injEq, exists_eq_left']
      unfold uintMax
      omega

/-- The text `zz`. -/
def notANumber : Page := ⟨[122, 122], by decide⟩

/-- The text `10000000000000001`, which is `2 ^ 64 + 1`. -/
def tooLong : Page := ⟨49 :: List.replicate 15 48 ++ [49], by decide⟩

/-- A page without a number writes what was in `val`, and one with a number of 65 bits writes 1. -/
theorem inverse_store_broken :
    (¬ ∀ (page : Page) (val : BitVec 64) (reg : BitVec 32), StoresParsed page val reg) ∧
      inverseStore notANumber 5 = ⟨some 5, .ok 2⟩ ∧ inverseStore tooLong 0 = ⟨some 1, .ok 17⟩ := by
  refine ⟨fun h => ?_, by decide, by decide⟩
  obtain ⟨n, hn, -⟩ := (h notANumber 5 0).writes.mp (by decide)
  cases hn

end Ldd3.Edu
