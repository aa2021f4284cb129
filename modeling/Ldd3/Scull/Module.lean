import Ldd3.Kernel
import Ldd3.Resources
import Mathlib.Logic.Function.Basic

/-!
# Loading and unloading scull

`scull_init_module` and `scull_cleanup_module` with the pipe part they call, `scull_p_init` and
`scull_p_cleanup`, and what they acquire and release. Every call into the kernel succeeds or fails
as `InitOutcomes` says. Of a device only its `cdev` is kept: it is all zero in a new array, it is
initialised by `cdev_init`, and it is registered if `cdev_add` succeeds. The contents of the devices
are freed with them and are left out here.
-/

namespace Ldd3.Scull

/-- The two parts of the module. -/
inductive Part where
  | devices
  | pipes
  deriving DecidableEq, Repr

/-- `dev_t`, as `MKDEV` builds it. -/
structure DevNo where
  major : Int
  minor : Int
  deriving DecidableEq, Repr

/-- What the module acquires: a region of device numbers and an array for each part, a `cdev` that
is initialised and one that is registered for each device, the cache and the `/proc` entry. -/
inductive ModuleResource where
  | region (part : Part) (first : DevNo)
  | array (part : Part)
  | cdev (part : Part) (i : Nat)
  | added (part : Part) (i : Nat)
  | cache
  | procEntry
  deriving DecidableEq, Repr

/-- The state of a `cdev`. -/
inductive Cdev where
  | zero
  | initialised
  | added
  deriving DecidableEq, Repr

/-- How the calls of one load end: what the registrations return, the major number that
`alloc_chrdev_region` chooses, and whether the allocations, the registrations of the `cdev`s and
`proc_create` succeed. -/
structure InitOutcomes where
  region : Int
  allocMajor : Int
  kcalloc : Bool
  cache : Bool
  cdevAdd : Part → Nat → Bool
  pRegion : Int
  kmallocArray : Bool
  procCreate : Bool

/-- The variables of the module, and what it has done. The arrays are `NULL` or hold a `cdev` for
each device. -/
structure Module where
  scullMajor : Int
  scullMinor : Int
  scullNrDevs : Nat
  scullPNrDevs : Nat
  scullDevices : Option (Nat → Cdev)
  kmc : Bool
  scullPDevices : Option (Nat → Cdev)
  scullPDev : DevNo
  log : List (ResourceOp ModuleResource)

/-- An array that is being set up, and what has been done so far. -/
structure Setup where
  array : Nat → Cdev
  log : List (ResourceOp ModuleResource)

/-- `cdev_init` and `cdev_add` for device `i` of a part. A failure of `cdev_add` is reported and
otherwise ignored. -/
def setupCdev (part : Part) (o : InitOutcomes) (i : Nat) (s : Setup) : Setup :=
  if o.cdevAdd part i then
    ⟨Function.update s.array i .added,
      s.log ++ [.acquire (.cdev part i)] ++ [.acquire (.added part i)]⟩
  else ⟨Function.update s.array i .initialised, s.log ++ [.acquire (.cdev part i)]⟩

/-- `scull_setup_cdev`. -/
def scullSetupCdev : InitOutcomes → Nat → Setup → Setup := setupCdev .devices

/-- `scull_p_setup_cdev`. -/
def scullPSetupCdev : InitOutcomes → Nat → Setup → Setup := setupCdev .pipes

/-- `cdev_del`: a registered `cdev` is taken out of the map, and any is put as if it had been
initialised. -/
def cdevDel (part : Part) (array : Nat → Cdev) (i : Nat) (log : List (ResourceOp ModuleResource)) :
    List (ResourceOp ModuleResource) :=
  (if array i = .added then log ++ [.release (.added part i)] else log) ++
    [.release (.cdev part i)]

namespace Module

/-- The module before its initialisation. -/
def load (scullMajor scullMinor : Int) (scullNrDevs scullPNrDevs : Nat) : Module :=
  ⟨scullMajor, scullMinor, scullNrDevs, scullPNrDevs, none, false, none, ⟨0, 0⟩, []⟩

/-- The module has acquired a resource. -/
def acquire (m : Module) (r : ModuleResource) : Module := { m with log := m.log ++ [.acquire r] }

/-- The module has released a resource. -/
def release (m : Module) (r : ModuleResource) : Module := { m with log := m.log ++ [.release r] }

/-- `MKDEV(scull_major, scull_minor)`. -/
def devno (m : Module) : DevNo := ⟨m.scullMajor, m.scullMinor⟩

/-- `scull_p_init`. -/
def scullPInit (o : InitOutcomes) (firstdev : DevNo) (m : Module) : Nat × Module :=
  if o.pRegion < 0 then (0, m)
  else
    let m := { m with scullPDev := firstdev }.acquire (.region .pipes firstdev)
    if o.kmallocArray then
      let s := forLoop (scullPSetupCdev o) m.scullPNrDevs
        ⟨fun _ => .zero, (m.acquire (.array .pipes)).log⟩
      (m.scullPNrDevs, { m with scullPDevices := some s.array, log := s.log })
    else (0, { m with scullPDevices := none }.release (.region .pipes firstdev))

/-- `scull_p_cleanup`. -/
def scullPCleanup (m : Module) : Module :=
  match m.scullPDevices with
  | none => m
  | some array =>
      let m := { m with log := forLoop (cdevDel .pipes array) m.scullPNrDevs m.log }
      { (m.release (.array .pipes)).release (.region .pipes m.scullPDev) with
        scullPDevices := none }

/-- `scull_create_proc`: nobody looks at what `proc_create` returns. -/
def scullCreateProc (o : InitOutcomes) (m : Module) : Module :=
  if o.procCreate then m.acquire .procEntry else m

/-- `scull_remove_proc`. -/
def scullRemoveProc (m : Module) : Module := m.release .procEntry

/-- `scull_cleanup_module` up to the label `final`. -/
def cleanupDevices (m : Module) : Module :=
  match m.scullDevices with
  | none => m
  | some array =>
      let m := { m with log := forLoop (cdevDel .devices array) m.scullNrDevs m.log }
      let m := m.release (.array .devices)
      if m.kmc then m.release .cache else m

/-- `scull_cleanup_module` after `scull_remove_proc`. -/
def cleanupRegions (m : Module) : Module := (m.release (.region .devices m.devno)).scullPCleanup

/-- `scull_cleanup_module`. -/
def scullCleanupModule (m : Module) : Module := m.cleanupDevices.scullRemoveProc.cleanupRegions

/-- The start of `scull_init_module`: the region of device numbers. -/
def registerRegion (o : InitOutcomes) (m : Module) : Int × Module :=
  if m.scullMajor ≠ 0 then (o.region, m) else (o.region, { m with scullMajor := o.allocMajor })

/-- The loop of `scull_init_module` over the devices. -/
def setupDevices (o : InitOutcomes) (m : Module) : Module :=
  let s := forLoop (scullSetupCdev o) m.scullNrDevs ⟨fun _ => .zero, m.log⟩
  { m with scullDevices := some s.array, log := s.log }

/-- Where the device numbers of the pipes begin. -/
def firstPipe (m : Module) : DevNo := ⟨m.scullMajor, m.scullMinor + m.scullNrDevs⟩

/-- `scull_init_module` once there is a cache. -/
def initDevices (o : InitOutcomes) (m : Module) : Module :=
  ((m.setupDevices o).scullPInit o m.firstPipe).2.scullCreateProc o

/-- `scull_init_module`. -/
def scullInitModule (o : InitOutcomes) (m : Module) : Int × Module :=
  let (ret, m) := m.registerRegion o
  if ret < 0 then (ret, m)
  else
    let m := m.acquire (.region .devices m.devno)
    if o.kcalloc then
      let m := { m with scullDevices := some fun _ => .zero }.acquire (.array .devices)
      if o.cache then (0, ({ m with kmc := true }.acquire .cache).initDevices o)
      else (-enomem, { m with kmc := false }.scullCleanupModule)
    else (-enomem, { m with scullDevices := none }.scullCleanupModule)

end Module

end Ldd3.Scull
