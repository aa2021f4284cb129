import Mathlib.Logic.Function.Basic
import Ldd3.Kernel
import Ldd3.Machine
import Ldd3.Resources

/-!
# Probing and removing a device

`qedu_probe` and `qedu_remove` of edu, with what they acquire and release. Every call into the
kernel succeeds or fails as `Outcomes` says. The parameters `use_msi` and `dma_mask` belong to the
module: a probe may change them for the probes after it. Of what `__qedu_remove` does only the
releases are kept here.
-/

namespace Ldd3.Edu

/-- What a driver acquires for a device. -/
inductive Resource where
  | object
  | enable
  | region
  | mapping
  | vectors
  | handler (irq : BitVec 32)
  deriving DecidableEq, Repr

/-- A negative error code. -/
abbrev ErrorCode := { code : Int // code < 0 }

/-- `ENODEV`. -/
def enodev : Int := 19

/-- `QEDU_DEFAULT_DMA_MASK`. -/
def qeduDefaultDmaMask : BitVec 32 := 28

/-- `QEDU_IS_ID`. -/
def qeduIsId (val : BitVec 32) : Bool := val &&& 0xfffff == 0x000ed

/-- `struct qedu_device`, as far as the releases depend on it. -/
structure QeduDevice where
  id : BitVec 32
  irq : BitVec 32
  useMsi : Bool
  deriving DecidableEq, Repr

/-- How the calls of one probe end. Without a code a call succeeds; `devIrq` is the field `irq` of
the `pci_dev`, and `id` the value of the ID register. -/
structure Outcomes where
  kzalloc : Bool
  enable : Option ErrorCode
  region : Option ErrorCode
  iomap : Bool
  dmaMask : Option ErrorCode
  dmaDefault : Option ErrorCode
  consistent : Option ErrorCode
  vectors : Option ErrorCode
  irqVector : Except ErrorCode (BitVec 32)
  devIrq : BitVec 32
  request : Option ErrorCode
  id : BitVec 32
  sysfs : Option ErrorCode

/-- A probe on its way: the parameters of the module, its variables, whether it has set the driver
data, and what it has done. -/
structure Probe where
  useMsi : Bool
  dmaMask : BitVec 32
  ret : Int
  edu : QeduDevice
  drvdata : Bool
  log : List (ResourceOp Resource)

/-- What a probe leaves behind; `edu` is its object, unless it has been freed. -/
structure Probed where
  useMsi : Bool
  dmaMask : BitVec 32
  ret : Int
  edu : Option QeduDevice
  drvdata : Bool
  log : List (ResourceOp Resource)

/-- What `__qedu_remove` releases. -/
def qeduRemoveReleases (edu : QeduDevice) : List Resource :=
  .handler edu.irq :: ((if edu.useMsi then [.vectors] else []) ++ [.mapping, .enable, .region])

namespace Probe

/-- The probe has acquired a resource. -/
def acquire (p : Probe) (r : Resource) : Probe := { p with log := p.log ++ [.acquire r] }

/-- The probe has released resources. -/
def release (p : Probe) (rs : List Resource) : Probe :=
  { p with log := p.log ++ rs.map .release }

/-- The label `end`. -/
def end_ (p : Probe) : Probed :=
  ⟨p.useMsi, p.dmaMask, p.ret, none, p.drvdata, (p.release [.object]).log⟩

/-- The label `fail`. -/
def fail (p : Probe) : Probed := (p.release (qeduRemoveReleases p.edu)).end_

/-- The label `fail_iomap`. -/
def failIomap (p : Probe) : Probed := (p.release [.enable, .region]).end_

/-- The label `fail_irq`. -/
def failIrq (p : Probe) : Probed := (p.release [.mapping]).failIomap

/-- The label `fail_enable`. -/
def failEnable (p : Probe) : Probed := p.end_

/-- The label `fail_request_region`. -/
def failRequestRegion (p : Probe) : Probed := (p.release [.enable]).end_

/-- The probe from the creation of the sysfs entries on. -/
def createEntries (o : Outcomes) (p : Probe) : Probed :=
  match o.sysfs with
  | some code => { p with ret := code }.fail
  | none => ⟨p.useMsi, p.dmaMask, 0, some { p.edu with useMsi := p.useMsi }, p.drvdata, p.log⟩

/-- The probe from the check of the ID register on. -/
def checkId (o : Outcomes) (p : Probe) : Probed :=
  let p := { p with edu.id := o.id }
  if qeduIsId o.id then p.createEntries o else p.fail

/-- The probe from `request_threaded_irq` on. -/
def requestIrq (o : Outcomes) (p : Probe) : Probed :=
  match o.request with
  | some code => { p with ret := code }.failIrq
  | none => ({ p with ret := 0 }.acquire (.handler p.edu.irq)).checkId o

/-- The probe from the choice of the interrupt on. -/
def chooseIrq (o : Outcomes) (p : Probe) : Probed :=
  if p.useMsi then
    match o.vectors with
    | some code =>
        { p with useMsi := false, ret := code, edu.irq := o.devIrq }.requestIrq o
    | none =>
        let p := { p with ret := 1 }.acquire .vectors
        match o.irqVector with
        | .error code => { p with ret := code }.failIrq
        | .ok irq => { p with ret := irq.toInt, edu.irq := irq }.requestIrq o
  else { p with edu.irq := o.devIrq }.requestIrq o

/-- The probe from `pci_set_consistent_dma_mask` on. -/
def setConsistentDmaMask (o : Outcomes) (p : Probe) : Probed :=
  match o.consistent with
  | some code => { p with ret := code }.fail
  | none => { p with ret := 0, drvdata := true }.chooseIrq o

/-- The probe from `pci_set_dma_mask` on. -/
def setDmaMask (o : Outcomes) (p : Probe) : Probed :=
  match o.dmaMask with
  | some code =>
      if p.dmaMask ≠ qeduDefaultDmaMask then
        match o.dmaDefault with
        | some code => { p with dmaMask := qeduDefaultDmaMask, ret := code }.fail
        | none => { p with dmaMask := qeduDefaultDmaMask, ret := 0 }.setConsistentDmaMask o
      else { p with ret := code }.setConsistentDmaMask o
  | none => { p with ret := 0 }.setConsistentDmaMask o

/-- The probe from `pci_iomap` on. -/
def iomap (o : Outcomes) (p : Probe) : Probed :=
  if o.iomap then (p.acquire .mapping).setDmaMask o else { p with ret := -enodev }.failIomap

/-- The probe from `pci_request_region` on. -/
def requestRegion (o : Outcomes) (p : Probe) : Probed :=
  match o.region with
  | some code => { p with ret := code }.failRequestRegion
  | none => ({ p with ret := 0 }.acquire .region).iomap o

/-- The probe from `pci_enable_device` on. -/
def enableDevice (o : Outcomes) (p : Probe) : Probed :=
  match o.enable with
  | some code => { p with ret := code }.failEnable
  | none => ({ p with ret := 0 }.acquire .enable).requestRegion o

end Probe

/-- `qedu_probe`. -/
def qeduProbe (useMsi : Bool) (dmaMask : BitVec 32) (o : Outcomes) : Probed :=
  if o.kzalloc then
    Probe.enableDevice o ⟨useMsi, dmaMask, 0, ⟨0, 0, false⟩, false, [.acquire .object]⟩
  else ⟨useMsi, dmaMask, -enomem, none, false, []⟩

/-- What `qedu_remove` does with the object the driver data point to. -/
def qeduRemove (edu : QeduDevice) : List (ResourceOp Resource) :=
  (qeduRemoveReleases edu).map .release ++ [.release .object]

/-- The driver and its devices. The driver data of a device point to an object, which is in
`objects` until it is freed; `bound` are the devices whose probe has returned 0. Next to it stands
what is `held` for a device, unless something illegal has been done for it. -/
structure Driver where
  useMsi : Bool
  dmaMask : BitVec 32
  objects : Nat → Option QeduDevice
  next : Nat
  drvdata : Nat → Option Nat
  bound : Nat → Bool
  held : Nat → Option (List Resource)

/-- A step: a device is probed or removed. -/
inductive DriverAction where
  | probe (d : Nat) (o : Outcomes)
  | remove (d : Nat)

/-- What a step shows: what a probe returns, and what has been acquired and released. -/
inductive DriverEvent where
  | probed (ret : Int) (log : List (ResourceOp Resource))
  | removed (log : List (ResourceOp Resource))

namespace Driver

/-- The module when it is loaded with its parameters. -/
def init (useMsi : Bool) (dmaMask : BitVec 32) : Driver :=
  ⟨useMsi, dmaMask, fun _ => none, 0, fun _ => none, fun _ => false, fun _ => some []⟩

/-- What is held for a device after more has been done for it. -/
def record (s : Driver) (d : Nat) (log : List (ResourceOp Resource)) :
    Nat → Option (List Resource) :=
  Function.update s.held d ((s.held d).bind (ResourceOp.replay · log))

/-- The driver after a probe of device `d` that has left `r` behind. -/
def probed (s : Driver) (d : Nat) (r : Probed) : Driver :=
  { s with
    useMsi := r.useMsi
    dmaMask := r.dmaMask
    objects := Function.update s.objects s.next r.edu
    next := s.next + 1
    drvdata := if r.drvdata then Function.update s.drvdata d (some s.next) else s.drvdata
    bound := Function.update s.bound d (r.ret = 0)
    held := s.record d r.log }

/-- The driver after a removal of device `d`, whose object `edu` is at `a`. -/
def removed (s : Driver) (d a : Nat) (edu : QeduDevice) : Driver :=
  { s with
    objects := Function.update s.objects a none
    bound := Function.update s.bound d false
    held := s.record d (qeduRemove edu) }

/-- A device that is not bound is probed, and one that is bound is removed. A removal that follows
the driver data to an object that has been freed has no step. -/
def step (s : Driver) : DriverAction → Option (Driver × DriverEvent)
  | .probe d o =>
      if s.bound d then none
      else
        let r := qeduProbe s.useMsi s.dmaMask o
        some (s.probed d r, .probed r.ret r.log)
  | .remove d =>
      if s.bound d then
        match s.drvdata d with
        | none => some ({ s with bound := Function.update s.bound d false }, .removed [])
        | some a =>
            (s.objects a).map fun edu => (s.removed d a edu, .removed (qeduRemove edu))
      else none

end Driver

end Ldd3.Edu
