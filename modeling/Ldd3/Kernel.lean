import Mathlib.Algebra.Group.Nat.Defs

/-!
# What the drivers use of the kernel's interface

Error codes, access modes, `size_t` subtraction, the outcome of an allocation and counting loops.
-/

namespace Ldd3

/-- The error codes the drivers return, without their sign. -/
inductive Errno where
  | EPERM
  | EAGAIN
  | ENOMEM
  | EFAULT
  | EBUSY
  | EINVAL
  | ENOTTY
  | ECANCELED
  | ERESTARTSYS
  deriving DecidableEq, Repr

/-- `ENOMEM` as a number. -/
def enomem : Int := 12

/-- The access mode of an open file: `O_RDONLY`, `O_WRONLY` or `O_RDWR`. -/
inductive AccMode where
  | rdonly
  | wronly
  | rdwr
  deriving DecidableEq, Repr

/-- `f_mode & FMODE_READ`. -/
def AccMode.read : AccMode → Bool
  | rdonly | rdwr => true
  | wronly => false

/-- `f_mode & FMODE_WRITE`. -/
def AccMode.write : AccMode → Bool
  | wronly | rdwr => true
  | rdonly => false

/-- Subtraction of `size_t` values. -/
def sizeSub (a b : Nat) : Nat :=
  (a + 2 ^ 64 - b) % 2 ^ 64

/-- `size_t` subtraction is exact when the difference fits, also if the minuend does not. -/
theorem size_sub_of_sub_lt {a b : Nat} (h : b ≤ a) (hsub : a - b < 2 ^ 64) :
    sizeSub a b = a - b := by
  unfold sizeSub
  omega

/-- `size_t` subtraction is exact when nothing is borrowed. -/
theorem size_sub_of_le {a b : Nat} (h : b ≤ a) (ha : a < 2 ^ 64) : sizeSub a b = a - b :=
  size_sub_of_sub_lt h (by omega)

/-- A block of kernel memory, with the number of bytes it was asked for. No block spans half
of the address space, so pointer differences inside one are exact. -/
structure Block where
  size : Nat
  size_lt : size < 2 ^ 63

/-- `kmalloc` with the allocator's decision `ok`; a size no block can have is refused. -/
def kmalloc (ok : Bool) (size : Nat) : Option Block :=
  if h : ok = true ∧ size < 2 ^ 63 then some ⟨size, h.2⟩ else none

/-- A successful `kmalloc` returns a block of the size asked for. -/
theorem size_of_kmalloc {ok : Bool} {size : Nat} {block : Block}
    (h : kmalloc ok size = some block) : block.size = size := by
  unfold kmalloc at h
  split at h
  · cases h
    rfl
  · cases h

/-- `for (i = 0; i < n; i++)` around a body that changes the state. -/
def forLoop {σ : Type*} (body : Nat → σ → σ) : Nat → σ → σ
  | 0, s => s
  | n + 1, s => body n (forLoop body n s)

end Ldd3
