import Ldd3.Kernel

/-!
# The ioctl commands of scull

`scullIoctl` after `scull/ioctl.c`. The command set changes three module-wide variables, the
`Tunables`; the pipes and the memory devices read them at their next open or trim. What the
caller's memory and capabilities do is the `IoctlEnv` of the call.
-/

namespace Ldd3.Scull

/-- The module-wide variables the ioctls change, all `unsigned long`. -/
structure Tunables where
  scullQuantum : Nat
  scullQset : Nat
  scullPLen : Nat
  deriving DecidableEq, Repr

/-- `SCULL_QUANTUM`, the default quantum. -/
def defaultQuantum : Nat := 4000

/-- `SCULL_QSET`, the default length of a quantum set. -/
def defaultQset : Nat := 1000

/-- `SCULL_IOC_MAGIC`, the letter `k`. -/
def iocMagic : BitVec 32 := 0x6b

/-- `SCULL_IOC_MAXNR`. -/
def iocMaxnr : BitVec 32 := 14

/-- `_IOC_TYPE`. -/
def iocType (cmd : BitVec 32) : BitVec 32 := (cmd >>> 8) &&& 0xff

/-- `_IOC_NR`. -/
def iocNr (cmd : BitVec 32) : BitVec 32 := cmd &&& 0xff

/-- `_IOC_SIZE`. -/
def iocSize (cmd : BitVec 32) : BitVec 32 := (cmd >>> 16) &&& 0x3fff

/-- `_IOC(dir, SCULL_IOC_MAGIC, nr, size)`. -/
def ioc (dir nr size : BitVec 32) : BitVec 32 :=
  dir <<< 30 ||| size <<< 16 ||| iocMagic <<< 8 ||| nr

/-- The commands of the switch in `scull_ioctl`. -/
inductive IoctlCmd where
  | iocreset
  | iocsquantum
  | ioctquantum
  | iocgquantum
  | iocqquantum
  | iocxquantum
  | iochquantum
  | pIoctsize
  | pIocqsize
  deriving DecidableEq, Repr

/-- The command numbers of `scull.h`: `_IO` carries no size, `_IOW`, `_IOR` and `_IOWR` that of
an `int`. -/
def IoctlCmd.number : IoctlCmd → BitVec 32
  | iocreset => ioc 0 0 0
  | iocsquantum => ioc 1 1 4
  | ioctquantum => ioc 0 3 0
  | iocgquantum => ioc 2 5 4
  | iocqquantum => ioc 0 7 0
  | iocxquantum => ioc 3 9 4
  | iochquantum => ioc 0 11 0
  | pIoctsize => ioc 0 13 0
  | pIocqsize => ioc 0 14 0

/-- The commands in the order of the switch. -/
def IoctlCmd.all : List IoctlCmd :=
  [iocreset, iocsquantum, ioctquantum, iocgquantum, iocqquantum, iocxquantum, iochquantum,
    pIoctsize, pIocqsize]

/-- The case of the switch that `cmd` selects. -/
def decode (cmd : BitVec 32) : Option IoctlCmd :=
  IoctlCmd.all.find? fun c => c.number == cmd

/-- What the calling process lets an ioctl do: `access_ok`, `capable(CAP_SYS_ADMIN)`, the `int`
at the argument address or a fault, and whether a store there succeeds. -/
structure IoctlEnv where
  accessOk : BitVec 64 → BitVec 32 → Bool
  capable : Bool
  user : Option (BitVec 32)
  putOk : Bool

/-- The outcome of an ioctl: the tunables, the result and the `int` stored for the caller. -/
structure IoctlResult where
  tunables : Tunables
  ret : Except Errno Int
  stored : Option (BitVec 32)

/-- `__get_user(scull_quantum, (int __user *)arg)`: an `int` is widened with its sign, and a
faulting access leaves zero. -/
def getUserQuantum (tun : Tunables) (user : Option (BitVec 32)) : Tunables × Except Errno Int :=
  match user with
  | some value => ({ tun with scullQuantum := (value.signExtend 64).toNat }, .ok 0)
  | none => ({ tun with scullQuantum := 0 }, .error .EFAULT)

/-- `__put_user(value, (int __user *)arg)`: the `int` stored and the result. -/
def putUser (value : BitVec 32) (putOk : Bool) : Option (BitVec 32) × Except Errno Int :=
  if putOk then (some value, .ok 0) else (none, .error .EFAULT)

/-- The switch of `scull_ioctl`. -/
def ioctlSwitch (tun : Tunables) (cmd : IoctlCmd) (arg : BitVec 64) (env : IoctlEnv) :
    IoctlResult :=
  match cmd with
  | .iocreset =>
      ⟨{ tun with scullQuantum := defaultQuantum, scullQset := defaultQset }, .ok 0, none⟩
  | .iocsquantum =>
      if env.capable then
        let (tun', ret) := getUserQuantum tun env.user
        ⟨tun', ret, none⟩
      else ⟨tun, .error .EPERM, none⟩
  | .ioctquantum =>
      if env.capable then ⟨{ tun with scullQuantum := arg.toNat }, .ok 0, none⟩
      else ⟨tun, .error .EPERM, none⟩
  | .iocgquantum =>
      let (stored, ret) := putUser (BitVec.ofNat 32 tun.scullQuantum) env.putOk
      ⟨tun, ret, stored⟩
  | .iocqquantum => ⟨tun, .ok (BitVec.ofNat 64 tun.scullQuantum).toInt, none⟩
  | .iocxquantum =>
      if env.capable then
        -- `tmp` is an `int`, so the old value is cut to 32 bits
        let tmp := BitVec.ofNat 32 tun.scullQuantum
        match getUserQuantum tun env.user with
        | (tun', .ok _) =>
            let (stored, ret) := putUser tmp env.putOk
            ⟨tun', ret, stored⟩
        | (tun', .error err) => ⟨tun', .error err, none⟩
      else ⟨tun, .error .EPERM, none⟩
  | .iochquantum =>
      if env.capable then
        let tmp := BitVec.ofNat 32 tun.scullQuantum
        ⟨{ tun with scullQuantum := arg.toNat }, .ok tmp.toInt, none⟩
      else ⟨tun, .error .EPERM, none⟩
  | .pIoctsize => ⟨{ tun with scullPLen := arg.toNat }, .ok 0, none⟩
  | .pIocqsize => ⟨tun, .ok (BitVec.ofNat 64 tun.scullPLen).toInt, none⟩

/-- `scull_ioctl`: commands of another driver, numbers past the last one and inaccessible
arguments are refused before the switch. -/
def scullIoctl (tun : Tunables) (cmd : BitVec 32) (arg : BitVec 64) (env : IoctlEnv) :
    IoctlResult :=
  if iocType cmd ≠ iocMagic then ⟨tun, .error .ENOTTY, none⟩
  else if iocNr cmd > iocMaxnr then ⟨tun, .error .ENOTTY, none⟩
  else if env.accessOk arg (iocSize cmd) = false then ⟨tun, .error .EFAULT, none⟩
  else
    match decode cmd with
    | some c => ioctlSwitch tun c arg env
    | none => ⟨tun, .error .ENOTTY, none⟩

/-- Every command of the switch passes the checks in front of it. -/
theorem scull_ioctl_number (tun : Tunables) (c : IoctlCmd) (arg : BitVec 64) (env : IoctlEnv)
    (h : env.accessOk arg (iocSize c.number) = true) :
    scullIoctl tun c.number arg env = ioctlSwitch tun c arg env := by
  have htype : iocType c.number = iocMagic := by cases c <;> decide
  have hnr : ¬ iocNr c.number > iocMaxnr := by cases c <;> decide
  have hdecode : decode c.number = some c := by cases c <;> decide
  simp [scullIoctl, htype, hnr, h, hdecode]

end Ldd3.Scull
