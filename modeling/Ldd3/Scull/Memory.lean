import Ldd3.Bytes
import Ldd3.Kernel
import Ldd3.Scull.Ioctl

/-!
# The scull memory device

The data of `struct scull_dev` and the functions of `scull/main.c` that work on it with the
lock held. The linked list of quantum sets is a list. Every object the device allocates has an
identifier, the number of allocations made before it, and the contents of a quantum object
fresh from the cache are the `stale` bytes of its identifier. The type `β` of the bytes is left
open: nothing in the code looks at them.

A division by zero in `__scull_follow` kills the caller while it holds the lock; the device is
`stuck` from then on.
-/

namespace Ldd3.Scull

/-- An object of the cache. -/
structure Quantum (β : Type) where
  id : Nat
  bytes : Nat → β

/-- The array of quantum pointers of a node; `none` is `NULL`. -/
structure QuantumArray (β : Type) where
  id : Nat
  slots : List (Option (Quantum β))

/-- `struct scull_qset`, without its `next` pointer. -/
structure ScullQset (β : Type) where
  id : Nat
  data : Option (QuantumArray β)

/-- `struct scull_dev`: `qset` is the list of nodes, and `stuck` says that a caller died with
the lock. -/
structure ScullDev (β : Type) where
  qset : List (ScullQset β)
  quantumLen : Nat
  qsetLen : Nat
  len : Nat
  stuck : Bool

/-- `struct scull_follow`: node, slot in the node's array and offset in the quantum. -/
structure ScullFollow where
  qsetP : Nat
  quantumP : Nat
  offsetP : Nat
  deriving DecidableEq, Repr

/-- What the environment decides in a call: whether a signal interrupts it, which allocations
succeed, and whether the user copy faults and what it has overwritten by then. -/
structure MemChoice (β : Type) where
  intr : Bool := false
  alloc : Nat → Bool := fun _ => true
  fault : Bool := false
  spoilt : Nat → Option β := fun _ => none

/-- What a call returned. -/
inductive MemRet where
  /-- zero, or the number of bytes read or written -/
  | done (count : Nat)
  | failed (err : Errno)
  | ioctl (ret : Except Errno Int)
  /-- the caller was killed -/
  | oops

/-- What a call shows: the range of offsets in a quantum object handed to the user copy, the
bytes delivered to a reader, the objects freed, `*f_pos` after a read or write, and the
result. -/
structure MemEffect (β : Type) where
  copy : Option (Nat × Nat) := none
  got : List β := []
  freed : List Nat := []
  fPos : Option Nat := none
  ret : MemRet

variable {β : Type}

/-- `total_len` in `__scull_follow`, a `size_t` product. -/
def ScullDev.totalLen (dev : ScullDev β) : Nat :=
  dev.quantumLen * dev.qsetLen % 2 ^ 64

/-- The position a file offset stands for. -/
def ScullDev.position (dev : ScullDev β) (pos : Nat) : ScullFollow :=
  let rest := pos % dev.totalLen
  ⟨pos / dev.totalLen, rest / dev.quantumLen, rest % dev.quantumLen⟩

/-- The walk of `__scull_follow` to node `n`: missing nodes are allocated, up to the first
allocation that fails. The node is then `NULL`, and the list ends before it. -/
def scullFollow (alloc : Nat → Bool) :
    Nat → List (ScullQset β) → Nat → List (ScullQset β) × Nat
  | 0, [], next => if alloc next then ([⟨next, none⟩], next + 1) else ([], next)
  | 0, node :: rest, next => (node :: rest, next)
  | n + 1, [], next =>
      if alloc next then
        let (rest, next') := scullFollow alloc n [] (next + 1)
        (⟨next, none⟩ :: rest, next')
      else ([], next)
  | n + 1, node :: rest, next =>
      let (rest', next') := scullFollow alloc n rest next
      (node :: rest', next')

/-- The pointer array of a node, allocated with `NULL` pointers if the node has none. -/
def allocData (alloc : Nat → Bool) (qsetLen : Nat) (node : ScullQset β) (next : Nat) :
    Option (QuantumArray β) × Nat :=
  match node.data with
  | some array => (some array, next)
  | none =>
      if alloc next then (some ⟨next, List.replicate qsetLen none⟩, next + 1) else (none, next)

/-- The quantum in a slot of an array, taken from the cache if the slot is `NULL`. -/
def allocQuantum (stale : Nat → Nat → β) (alloc : Nat → Bool) (array : QuantumArray β)
    (quantumP next : Nat) : Option (Quantum β) × Nat :=
  match array.slots[quantumP]?.join with
  | some quantum => (some quantum, next)
  | none => if alloc next then (some ⟨next, stale next⟩, next + 1) else (none, next)

/-- The node `qsetP` gets a pointer array. -/
def putData (nodes : List (ScullQset β)) (qsetP : Nat) (node : ScullQset β)
    (array : QuantumArray β) : List (ScullQset β) :=
  nodes.set qsetP { node with data := some array }

/-- A slot of an array gets a quantum. -/
def QuantumArray.put (array : QuantumArray β) (quantumP : Nat) (quantum : Quantum β) :
    QuantumArray β :=
  { array with slots := array.slots.set quantumP (some quantum) }

/-- `scull_read` with the lock held. -/
def scullRead (dev : ScullDev β) (pos count : Nat) (ch : MemChoice β) (next : Nat) :
    ScullDev β × Nat × MemEffect β :=
  if pos ≥ dev.len then (dev, next, { fPos := some pos, ret := .done 0 })
  else
    let count := if pos + count > dev.len then dev.len - pos else count
    if dev.totalLen = 0 then
      -- the division in `__scull_follow` traps with the lock held
      ({ dev with stuck := true }, next, { fPos := some pos, ret := .oops })
    else
      let flw := dev.position pos
      let (nodes, next) := scullFollow ch.alloc flw.qsetP dev.qset next
      let dev := { dev with qset := nodes }
      match (nodes[flw.qsetP]?.bind ScullQset.data).bind fun array =>
          array.slots[flw.quantumP]?.join with
      -- no node, no array or no quantum: the nodes `__scull_follow` has allocated stay
      | none => (dev, next, { fPos := some pos, ret := .done 0 })
      | some quantum =>
          let count := min count (dev.quantumLen - flw.offsetP)
          if ch.fault then
            (dev, next,
              { copy := some (flw.offsetP, count), fPos := some pos, ret := .failed .EFAULT })
          else
            (dev, next,
              { copy := some (flw.offsetP, count)
                got := slice quantum.bytes flw.offsetP count
                fPos := some (pos + count)
                ret := .done count })

/-- `scull_write` with the lock held. -/
def scullWrite (stale : Nat → Nat → β) (dev : ScullDev β) (pos : Nat) (data : List β)
    (ch : MemChoice β) (next : Nat) : ScullDev β × Nat × MemEffect β :=
  if dev.totalLen = 0 then
    ({ dev with stuck := true }, next, { fPos := some pos, ret := .oops })
  else
    let flw := dev.position pos
    let (nodes, next) := scullFollow ch.alloc flw.qsetP dev.qset next
    let dev := { dev with qset := nodes }
    match nodes[flw.qsetP]? with
    | none => (dev, next, { fPos := some pos, ret := .failed .ENOMEM })
    | some node =>
        match allocData ch.alloc dev.qsetLen node next with
        | (none, next) => (dev, next, { fPos := some pos, ret := .failed .ENOMEM })
        | (some array, next) =>
            match allocQuantum stale ch.alloc array flw.quantumP next with
            | (none, next) =>
                ({ dev with qset := putData nodes flw.qsetP node array }, next,
                  { fPos := some pos, ret := .failed .ENOMEM })
            | (some quantum, next) =>
                let count := min data.length (dev.quantumLen - flw.offsetP)
                let filled := fun bytes => putData nodes flw.qsetP node
                  (array.put flw.quantumP { quantum with bytes := bytes })
                if ch.fault then
                  ({ dev with qset := filled (spoil quantum.bytes flw.offsetP count ch.spoilt) },
                    next,
                    { copy := some (flw.offsetP, count), fPos := some pos,
                      ret := .failed .EFAULT })
                else
                  ({ dev with
                      qset := filled (store quantum.bytes flw.offsetP (data.take count))
                      len := if dev.len < pos + count then pos + count else dev.len },
                    next,
                    { copy := some (flw.offsetP, count), fPos := some (pos + count),
                      ret := .done count })

/-- The objects `__scull_trim` frees with a node: `kmem_cache_free_bulk` frees the quanta among
the first `qset_len - 1` pointers, and then the array and the node go. -/
def freedNode (qsetLen : Nat) (node : ScullQset β) : List Nat :=
  match node.data with
  | some array =>
      (array.slots.take (sizeSub qsetLen 1)).filterMap (fun slot => slot.map Quantum.id) ++
        [array.id, node.id]
  | none => [node.id]

/-- `__scull_trim`. -/
def scullTrim (tun : Tunables) (dev : ScullDev β) : ScullDev β × List Nat :=
  ({ dev with qset := [], quantumLen := tun.scullQuantum, qsetLen := tun.scullQset, len := 0 },
    dev.qset.flatMap (freedNode dev.qsetLen))

end Ldd3.Scull
