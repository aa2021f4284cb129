import Mathlib.Logic.Function.Basic
import Ldd3.Edu.Inverse
import Ldd3.Machine

/-!
# The attributes of the driver and its devices

The three attributes of edu belong to the driver, not to a device: their functions find the device
in the global variable `qedu_dev`, which every probe sets at its start and clears when it fails, and
the object in the driver data of the device. A probe creates the files and a removal removes them,
and the kernel waits with the removal of a file until nobody is in its functions.

The model has any number of devices, whose probes, removals and accesses interleave. `DeviceStep`
says once what a step of a device can do, and `sound_of_device_step` what it keeps whatever the
others do.
-/

namespace Ldd3.Edu

/-- The attributes, in the order in which `qedu_sysfs_create_entries` creates them. -/
inductive Attribute where
  | version
  | inverse
  | testIrq
  deriving DecidableEq, Repr

namespace Attribute

/-- The one created before. -/
def before : Attribute → Option Attribute
  | version => none
  | inverse => some version
  | testIrq => some inverse

/-- The one created next. -/
def after : Attribute → Option Attribute
  | version => some inverse
  | inverse => some testIrq
  | testIrq => none

/-- The position in the order. -/
def rank : Attribute → Nat
  | version => 0
  | inverse => 1
  | testIrq => 2

end Attribute

/-- The functions of the attributes, `inverse_store` with its page and its uninitialised `val`. -/
inductive AttributeFunction where
  | versionShow
  | inverseShow
  | inverseStore (page : Page) (val : BitVec 64)
  | testIrqShow
  deriving DecidableEq, Repr

namespace AttributeFunction

/-- The attribute of a function. -/
def attr : AttributeFunction → Attribute
  | versionShow => .version
  | inverseShow | inverseStore _ _ => .inverse
  | testIrqShow => .testIrq

/-- `inverse_store` returns `-EINVAL` for a large number, before it takes the lock. -/
def rejects : AttributeFunction → Bool
  | inverseStore page val => (Edu.inverseStore page val).written.isNone
  | _ => false

/-- The function takes the lock of the object. -/
def locks : AttributeFunction → Bool
  | versionShow => false
  | inverseStore page val => (Edu.inverseStore page val).written.isSome
  | inverseShow | testIrqShow => true

/-- Whoever is rejected does not get to the lock. -/
theorem locks_of_rejects {fn : AttributeFunction} (h : fn.rejects = true) : fn.locks = false := by
  cases fn with
  | inverseStore page val =>
      show (Edu.inverseStore page val).written.isSome = false
      rw [Option.isNone_iff_eq_none.mp h]
      rfl
  | _ => cases h

/-- Who is in the functions of `inverse` wants the lock or is rejected. -/
theorem rejects_of_not_locks {fn : AttributeFunction} (hattr : fn.attr = .inverse)
    (h : fn.locks = false) : fn.rejects = true := by
  cases fn with
  | inverseStore page val =>
      rw [locks, Option.isSome_eq_false_iff] at h
      exact h
  | inverseShow => cases h
  | versionShow | testIrqShow => cases hattr

end AttributeFunction

/-- What happens to a device. -/
inductive DevicePc where
  | unbound
  /-- `qedu_probe` before `pci_set_drvdata` -/
  | setup
  /-- `qedu_probe` before `qedu_sysfs_create_entries` -/
  | ready
  /-- `qedu_sysfs_create_entries`, about to create a file -/
  | creating (a : Attribute)
  /-- `qedu_sysfs_create_entries`, about to remove a file after a failure -/
  | undoing (a : Attribute)
  /-- the label `fail` of `qedu_probe`, with `ret` zero or not -/
  | failing (zero : Bool)
  /-- `__qedu_remove` after a failure, while it does not hold the lock -/
  | stopping (zero : Bool)
  /-- the label `end` of `qedu_probe` -/
  | ending (zero : Bool)
  /-- `qedu_probe` before `qedu_dev = NULL` -/
  | clearing (zero : Bool)
  | bound
  /-- the probe has returned 0 after it has freed its object -/
  | dangling
  /-- `qedu_sysfs_remove_entries`, about to remove a file -/
  | removing (a : Attribute)
  /-- `qedu_remove` before `kfree` -/
  | freeing
  deriving DecidableEq, Repr

/-- A device. Its probes allocate objects with numbers: `object` is the one that has not been freed,
whose lock a probe may hold, and the driver data point to one. -/
structure EduDevice where
  pc : DevicePc
  drvdata : Option Nat
  object : Option Nat
  probes : Nat
  locked : Bool
  deriving DecidableEq, Repr

/-- An access to an attribute: it has read nothing yet, `qedu_dev`, or the driver data of it. -/
inductive AccessPc where
  | entered
  | dev (p : Option Nat)
  | edu (d : Nat) (e : Option Nat)
  deriving DecidableEq, Repr

/-- A call of a show or store function. -/
structure Access where
  fn : AttributeFunction
  pc : AccessPc
  deriving DecidableEq, Repr

/-- The attribute whose function has been called. -/
def Access.attr (c : Access) : Attribute := c.fn.attr

/-- The driver, its devices and the accesses. -/
structure Attributes where
  qeduDev : Option Nat
  files : Attribute → Bool
  devices : Nat → EduDevice
  accesses : List Access

/-- How a step of a probe ends: with a jump to `fail` or to a label after it, or with a wrong value
in the ID register. -/
inductive ProbeOutcome where
  | ok
  | fail
  | failLater
  | wrongId
  deriving DecidableEq, Repr

/-- A step of a probe, of a removal, or of an access, which may be its last. -/
inductive AttributesAction where
  | probe (d : Nat) (r : ProbeOutcome)
  | remove (d : Nat)
  | enter (fn : AttributeFunction)
  | access (i : Nat) (last : Bool)
  deriving DecidableEq, Repr

/-- The device that takes the step. -/
def AttributesAction.device : AttributesAction → Option Nat
  | .probe d _ | .remove d => some d
  | .enter _ | .access _ _ => none

/-- What a step shows: the kernel oopses if something follows a null pointer or touches an object
that has been freed. -/
inductive AttributesEvent where
  | quiet
  | used
  | oops
  deriving DecidableEq, Repr

namespace Attributes

/-- The driver without devices. -/
def init : Attributes := ⟨none, fun _ => false, fun _ => ⟨.unbound, none, none, 0, false⟩, []⟩

/-- A device changes. -/
def put (s : Attributes) (d : Nat) (x : EduDevice) : Attributes :=
  { s with devices := Function.update s.devices d x }

/-- A file appears or disappears. -/
def setFile (s : Attributes) (a : Attribute) (present : Bool) : Attributes :=
  { s with files := Function.update s.files a present }

/-- Nobody is in the functions of an attribute. -/
def Drained (s : Attributes) (a : Attribute) : Prop := ∀ c ∈ s.accesses, c.attr ≠ a

instance (s : Attributes) (a : Attribute) : Decidable (s.Drained a) :=
  inferInstanceAs (Decidable (∀ c ∈ s.accesses, _))

/-- The failure of a creation removes the files created before. -/
def undo (a : Attribute) : DevicePc :=
  match a.before with
  | some b => .undoing b
  | none => .failing false

/-- One step of `qedu_probe`. -/
def qeduProbe (s : Attributes) (d : Nat) (r : ProbeOutcome) : Option Attributes :=
  let x := s.devices d
  match x.pc with
  | .unbound =>
      -- without memory it returns at once
      if r = .ok then
        some { s.put d { x with
            pc := .setup, object := some x.probes, probes := x.probes + 1, locked := true } with
          qeduDev := some d }
      else some s
  | .setup =>
      match r with
      | .ok => some (s.put d { x with pc := .ready, drvdata := x.object })
      | .fail => some (s.put d { x with pc := .failing false })
      | .failLater => some (s.put d { x with pc := .ending false })
      | .wrongId => none
  | .ready =>
      match r with
      | .ok => some (s.put d { x with pc := .creating .version })
      | .fail => none
      | .failLater => some (s.put d { x with pc := .ending false })
      -- `ret` is still the 0 of `request_threaded_irq`
      | .wrongId => some (s.put d { x with pc := .failing true })
  | .creating a =>
      -- a file that exists cannot be created
      if r = .ok ∧ s.files a = false then
        match a.after with
        | some b => some ((s.setFile a true).put d { x with pc := .creating b })
        | none => some ((s.setFile a true).put d { x with pc := .bound, locked := false })
      else some (s.put d { x with pc := undo a })
  | .undoing a =>
      if s.Drained a then some ((s.setFile a false).put d { x with pc := undo a }) else none
  | .failing zero => some (s.put d { x with pc := .stopping zero, locked := false })
  | .stopping zero => some (s.put d { x with pc := .ending zero, locked := true })
  | .ending zero => some (s.put d { x with pc := .clearing zero, object := none, locked := false })
  | .clearing true => some { s.put d { x with pc := .dangling } with qeduDev := none }
  | .clearing false =>
      -- the driver core then clears the driver data
      some { s.put d { x with pc := .unbound, drvdata := none } with qeduDev := none }
  | .bound | .dangling | .removing _ | .freeing => none

/-- `qedu_remove` up to the first file: it reads the object. -/
def leave (s : Attributes) (d : Nat) (x : EduDevice) : Attributes × AttributesEvent :=
  match x.drvdata with
  | some n =>
      if x.object = some n then (s.put d { x with pc := .removing .testIrq }, .quiet)
      else (s, .oops)
  | none => (s.put d { x with pc := .unbound }, .quiet)

/-- One step of `qedu_remove`. -/
def qeduRemove (s : Attributes) (d : Nat) : Option (Attributes × AttributesEvent) :=
  let x := s.devices d
  match x.pc with
  | .bound | .dangling => some (s.leave d x)
  | .removing a =>
      if s.Drained a then
        match a.before with
        | some b => some ((s.setFile a false).put d { x with pc := .removing b }, .quiet)
        | none => some ((s.setFile a false).put d { x with pc := .freeing }, .quiet)
      else none
  | .freeing =>
      some (s.put d { x with pc := .unbound, object := none, drvdata := none }, .quiet)
  | _ => none

/-- One step of an access. A store that is rejected follows `qedu_dev`, but not the driver data. -/
def touch (s : Attributes) (i : Nat) (c : Access) (last : Bool) :
    Option (Attributes × AttributesEvent) :=
  match c.pc with
  | .entered =>
      some ({ s with accesses := s.accesses.set i { c with pc := .dev s.qeduDev } }, .quiet)
  | .dev none => some (s, .oops)
  | .dev (some d) =>
      some ({ s with
        accesses := s.accesses.set i { c with pc := .edu d (s.devices d).drvdata } }, .quiet)
  | .edu d e =>
      if c.fn.rejects then some ({ s with accesses := s.accesses.eraseIdx i }, .quiet)
      else if e = none ∨ (s.devices d).object ≠ e then some (s, .oops)
      else if c.fn.locks ∧ (s.devices d).locked = true then none
      else some (if last then { s with accesses := s.accesses.eraseIdx i } else s, .used)

/-- One step. -/
def step (s : Attributes) : AttributesAction → Option (Attributes × AttributesEvent)
  | .probe d r => (s.qeduProbe d r).map fun t => (t, .quiet)
  | .remove d => s.qeduRemove d
  | .enter fn =>
      if s.files fn.attr then
        some ({ s with accesses := s.accesses ++ [⟨fn, .entered⟩] }, .quiet)
      else none
  | .access i last => s.accesses[i]?.bind fun c => s.touch i c last

/-- The steps of a device: what it becomes, and the files and `qedu_dev` after the step. -/
inductive DeviceStep (s : Attributes) (d : Nat) (x : EduDevice) :
    EduDevice → (Attribute → Bool) → Option Nat → Prop where
  | refused : DeviceStep s d x x s.files s.qeduDev
  | begins (hpc : x.pc = .unbound) :
      DeviceStep s d x
        { x with pc := .setup, object := some x.probes, probes := x.probes + 1, locked := true }
        s.files (some d)
  | setsData (hpc : x.pc = .setup) :
      DeviceStep s d x { x with pc := .ready, drvdata := x.object } s.files s.qeduDev
  | fails (hpc : x.pc = .setup) :
      DeviceStep s d x { x with pc := .failing false } s.files s.qeduDev
  | mismatches (hpc : x.pc = .ready) :
      DeviceStep s d x { x with pc := .failing true } s.files s.qeduDev
  | ends (hpc : x.pc = .setup ∨ x.pc = .ready) :
      DeviceStep s d x { x with pc := .ending false } s.files s.qeduDev
  | starts (hpc : x.pc = .ready) :
      DeviceStep s d x { x with pc := .creating .version } s.files s.qeduDev
  | creates {a b : Attribute} (hpc : x.pc = .creating a) (hafter : a.after = some b) :
      DeviceStep s d x { x with pc := .creating b } (Function.update s.files a true) s.qeduDev
  | binds {a : Attribute} (hpc : x.pc = .creating a) (hafter : a.after = none) :
      DeviceStep s d x { x with pc := .bound, locked := false } (Function.update s.files a true)
        s.qeduDev
  | givesUp {a : Attribute} (hpc : x.pc = .creating a) :
      DeviceStep s d x { x with pc := undo a } s.files s.qeduDev
  | undoes {a : Attribute} (hpc : x.pc = .undoing a) (hdrained : s.Drained a) :
      DeviceStep s d x { x with pc := undo a } (Function.update s.files a false) s.qeduDev
  | unlocks {zero : Bool} (hpc : x.pc = .failing zero) :
      DeviceStep s d x { x with pc := .stopping zero, locked := false } s.files s.qeduDev
  | locks {zero : Bool} (hpc : x.pc = .stopping zero) :
      DeviceStep s d x { x with pc := .ending zero, locked := true } s.files s.qeduDev
  | discards {zero : Bool} (hpc : x.pc = .ending zero) :
      DeviceStep s d x { x with pc := .clearing zero, object := none, locked := false } s.files
        s.qeduDev
  | dangles (hpc : x.pc = .clearing true) :
      DeviceStep s d x { x with pc := .dangling } s.files none
  | clears (hpc : x.pc = .clearing false) :
      DeviceStep s d x { x with pc := .unbound, drvdata := none } s.files none
  | leaves (hpc : x.pc = .bound ∨ x.pc = .dangling) (hdata : x.drvdata = x.object)
      (hobject : x.object.isSome = true) :
      DeviceStep s d x { x with pc := .removing .testIrq } s.files s.qeduDev
  | forgets (hpc : x.pc = .bound ∨ x.pc = .dangling) (hdata : x.drvdata = none) :
      DeviceStep s d x { x with pc := .unbound } s.files s.qeduDev
  | removes {a b : Attribute} (hpc : x.pc = .removing a) (hbefore : a.before = some b)
      (hdrained : s.Drained a) :
      DeviceStep s d x { x with pc := .removing b } (Function.update s.files a false) s.qeduDev
  | removesLast {a : Attribute} (hpc : x.pc = .removing a) (hbefore : a.before = none)
      (hdrained : s.Drained a) :
      DeviceStep s d x { x with pc := .freeing } (Function.update s.files a false) s.qeduDev
  | frees (hpc : x.pc = .freeing) :
      DeviceStep s d x { x with pc := .unbound, object := none, drvdata := none } s.files s.qeduDev

/-- The state after a step of a device. -/
def become (s : Attributes) (d : Nat) (y : EduDevice) (files : Attribute → Bool) (q : Option Nat) :
    Attributes :=
  ⟨q, files, Function.update s.devices d y, s.accesses⟩

theorem become_self (s : Attributes) (d : Nat) :
    s.become d (s.devices d) s.files s.qeduDev = s := by
  unfold become
  rw [Function.update_eq_self]

@[simp] theorem become_devices_self (s : Attributes) (d : Nat) (y : EduDevice)
    (files : Attribute → Bool) (q : Option Nat) : (s.become d y files q).devices d = y :=
  Function.update_self ..

theorem become_devices_of_ne {s : Attributes} {d d' : Nat} (hne : d' ≠ d) (y : EduDevice)
    (files : Attribute → Bool) (q : Option Nat) :
    (s.become d y files q).devices d' = s.devices d' :=
  Function.update_of_ne hne ..

theorem device_step_of_probe {s t : Attributes} {d : Nat} {r : ProbeOutcome}
    (h : s.qeduProbe d r = some t) :
    ∃ y files q, DeviceStep s d (s.devices d) y files q ∧ t = s.become d y files q := by
  unfold qeduProbe at h
  dsimp only at h
  split at h
  case h_1 hpc =>
      split_ifs at h
      · cases h
        exact ⟨_, _, _, .begins hpc, rfl⟩
      · cases h
        exact ⟨_, _, _, .refused, (become_self s d).symm⟩
  case h_2 hpc =>
      cases r with
      | ok =>
          cases h
          exact ⟨_, _, _, .setsData hpc, rfl⟩
      | fail =>
          cases h
          exact ⟨_, _, _, .fails hpc, rfl⟩
      | failLater =>
          cases h
          exact ⟨_, _, _, .ends (.inl hpc), rfl⟩
      | wrongId => cases h
  case h_3 hpc =>
      cases r with
      | ok =>
          cases h
          exact ⟨_, _, _, .starts hpc, rfl⟩
      | fail => cases h
      | failLater =>
          cases h
          exact ⟨_, _, _, .ends (.inr hpc), rfl⟩
      | wrongId =>
          cases h
          exact ⟨_, _, _, .mismatches hpc, rfl⟩
  case h_4 a hpc =>
      split_ifs at h
      · split at h
        · rename_i b hafter
          cases h
          exact ⟨_, _, _, .creates hpc hafter, rfl⟩
        · rename_i hafter
          cases h
          exact ⟨_, _, _, .binds hpc hafter, rfl⟩
      · cases h
        exact ⟨_, _, _, .givesUp hpc, rfl⟩
  case h_5 a hpc =>
      split_ifs at h with hdrained
      cases h
      exact ⟨_, _, _, .undoes hpc hdrained, rfl⟩
  case h_6 zero hpc =>
      cases h
      exact ⟨_, _, _, .unlocks hpc, rfl⟩
  case h_7 zero hpc =>
      cases h
      exact ⟨_, _, _, .locks hpc, rfl⟩
  case h_8 zero hpc =>
      cases h
      exact ⟨_, _, _, .discards hpc, rfl⟩
  case h_9 hpc =>
      cases h
      exact ⟨_, _, _, .dangles hpc, rfl⟩
  case h_10 hpc =>
      cases h
      exact ⟨_, _, _, .clears hpc, rfl⟩
  all_goals cases h

/-- What a removal does to a device, if the kernel survives it. -/
def Left (s t : Attributes) (d : Nat) (e : AttributesEvent) : Prop :=
  (∃ y files q,
      DeviceStep s d (s.devices d) y files q ∧ t = s.become d y files q ∧ e = .quiet) ∨
    (t = s ∧ e = .oops ∧ ((s.devices d).pc = .bound ∨ (s.devices d).pc = .dangling) ∧
      (s.devices d).drvdata ≠ (s.devices d).object)

theorem left_of_leave {s t : Attributes} {d : Nat} {e : AttributesEvent}
    (hpc : (s.devices d).pc = .bound ∨ (s.devices d).pc = .dangling)
    (h : s.leave d (s.devices d) = (t, e)) : Left s t d e := by
  unfold leave at h
  split at h
  · rename_i n hdata
    split_ifs at h with hobject
    · cases h
      have hsome : (s.devices d).object.isSome = true := by rw [hobject]; rfl
      exact .inl ⟨_, _, _, .leaves hpc (hdata.trans hobject.symm) hsome, rfl, rfl⟩
    · cases h
      refine .inr ⟨rfl, rfl, hpc, ?_⟩
      rw [hdata]
      exact fun heq => hobject heq.symm
  · rename_i hdata
    cases h
    exact .inl ⟨_, _, _, .forgets hpc hdata, rfl, rfl⟩

theorem left_of_remove {s t : Attributes} {d : Nat} {e : AttributesEvent}
    (h : s.qeduRemove d = some (t, e)) : Left s t d e := by
  unfold qeduRemove at h
  dsimp only at h
  split at h
  case h_1 hpc => exact left_of_leave (.inl hpc) (Option.some.inj h)
  case h_2 hpc => exact left_of_leave (.inr hpc) (Option.some.inj h)
  case h_3 a hpc =>
      split_ifs at h with hdrained
      split at h
      · rename_i b hbefore
        cases h
        exact .inl ⟨_, _, _, .removes hpc hbefore hdrained, rfl, rfl⟩
      · rename_i hbefore
        cases h
        exact .inl ⟨_, _, _, .removesLast hpc hbefore hdrained, rfl, rfl⟩
  case h_4 hpc =>
      cases h
      exact .inl ⟨_, _, _, .frees hpc, rfl, rfl⟩
  case h_5 => cases h

/-- An access leaves the devices alone. -/
theorem touch_devices {s t : Attributes} {i : Nat} {c : Access} {last : Bool}
    {e : AttributesEvent} (h : s.touch i c last = some (t, e)) : t.devices = s.devices := by
  unfold touch at h
  split at h
  case h_4 =>
      split_ifs at h <;> cases h <;> rfl
  all_goals
    cases h
    rfl

/-- A step leaves the other devices alone. -/
theorem step_devices {s t : Attributes} {a : AttributesAction} {e : AttributesEvent} {d : Nat}
    (h : s.step a = some (t, e)) (hd : a.device ≠ some d) : t.devices d = s.devices d := by
  cases a with
  | probe d' r =>
      obtain ⟨t', hprobe, heq⟩ := Option.map_eq_some_iff.mp h
      cases heq
      obtain ⟨y, files, q, -, rfl⟩ := device_step_of_probe hprobe
      exact become_devices_of_ne (fun heq => hd (congrArg some heq.symm)) y files q
  | remove d' =>
      rcases left_of_remove h with ⟨y, files, q, -, rfl, -⟩ | ⟨rfl, -⟩
      · exact become_devices_of_ne (fun heq => hd (congrArg some heq.symm)) y files q
      · rfl
  | enter fn =>
      unfold step at h
      dsimp only at h
      split_ifs at h
      cases h
      rfl
  | access i last =>
      obtain ⟨c, -, htouch⟩ := Option.bind_eq_some_iff.mp h
      rw [touch_devices htouch]

end Attributes

namespace DevicePc

/-- The object of the device is allocated. -/
def hasObject : DevicePc → Bool
  | unbound | clearing _ | dangling => false
  | _ => true

/-- The driver data point to the object. -/
def hasData : DevicePc → Bool
  | ready | creating _ | undoing _ | bound | removing _ | freeing => true
  | _ => false

/-- The probe holds the lock. -/
def holdsLock : DevicePc → Bool
  | setup | ready | creating _ | undoing _ | failing _ | ending _ => true
  | _ => false

/-- The files that the device has created and not removed. -/
def shows : DevicePc → Attribute → Bool
  | creating b, a => a.rank < b.rank
  | undoing b, a | removing b, a => a.rank ≤ b.rank
  | bound, _ => true
  | _, _ => false

/-- The device is being probed, bound, or losing its files: it needs `qedu_dev`. -/
def busy : DevicePc → Bool
  | unbound | dangling | freeing => false
  | _ => true

/-- A probe that has returned 0, or is going to, after it has freed its object. -/
def mistaken : DevicePc → Bool
  | failing zero | stopping zero | ending zero | clearing zero => zero
  | dangling => true
  | _ => false

/-- A probe is running. -/
def probing : DevicePc → Bool
  | setup | ready | creating _ | undoing _ | failing _ | stopping _ | ending _ | clearing _ => true
  | _ => false

/-- A device with files is busy, and has the first file. -/
theorem busy_of_shows {pc : DevicePc} {a : Attribute} (h : pc.shows a = true) :
    pc.busy = true ∧ pc.hasData = true ∧ pc.hasObject = true ∧ pc.shows .version = true := by
  cases pc with
  | creating b => cases b <;> cases a <;> first | exact ⟨rfl, rfl, rfl, rfl⟩ | cases h
  | undoing b | removing b => cases b <;> exact ⟨rfl, rfl, rfl, rfl⟩
  | bound => exact ⟨rfl, rfl, rfl, rfl⟩
  | _ => cases h

theorem shows_create {a b : Attribute} (hafter : a.after = some b) :
    Function.update (creating a).shows a true = (creating b).shows := by
  funext c
  cases a <;> cases hafter <;> cases c <;> rfl

theorem shows_create_last {a : Attribute} (hafter : a.after = none) :
    Function.update (creating a).shows a true = bound.shows := by
  funext c
  cases a <;> cases hafter
  cases c <;> rfl

theorem shows_give_up (a : Attribute) : (creating a).shows = (Attributes.undo a).shows := by
  funext c
  cases a <;> cases c <;> rfl

theorem shows_undo (a : Attribute) :
    Function.update (undoing a).shows a false = (Attributes.undo a).shows := by
  funext c
  cases a <;> cases c <;> rfl

theorem shows_leave : bound.shows = (removing .testIrq).shows := by
  funext c
  cases c <;> rfl

theorem shows_remove {a b : Attribute} (hbefore : a.before = some b) :
    Function.update (removing a).shows a false = (removing b).shows := by
  funext c
  cases a <;> cases hbefore <;> cases c <;> rfl

theorem shows_remove_last {a : Attribute} (hbefore : a.before = none) :
    Function.update (removing a).shows a false = freeing.shows := by
  funext c
  cases a <;> cases hbefore
  cases c <;> rfl

/-- A busy device without a probe has the first file. -/
theorem shows_of_busy {pc : DevicePc} (hbusy : pc.busy = true) (hprobe : pc.probing = false) :
    pc.shows .version = true := by
  cases pc with
  | bound | removing => rfl
  | unbound | dangling | freeing => cases hbusy
  | _ => cases hprobe

end DevicePc

/-- What holds of a device at every point of its probes and removals. -/
structure EduDevice.Sound (x : EduDevice) : Prop where
  object : x.object.isSome = x.pc.hasObject
  data : x.pc.hasData = true → x.drvdata = x.object
  unbound : x.pc = .unbound → x.drvdata = none
  mistaken : x.pc.mistaken = true → x.drvdata.isSome = true
  lock : x.pc.holdsLock = true → x.locked = true

namespace Attributes

/-- Every step of a device keeps it sound, whatever the others do. -/
theorem sound_of_device_step {s : Attributes} {d : Nat} {x y : EduDevice} {files : Attribute → Bool}
    {q : Option Nat} (hx : x.Sound) (h : DeviceStep s d x y files q) : y.Sound := by
  obtain ⟨hobject, hdata, hunbound, hzero, hlock⟩ := hx
  cases h with
  | refused => exact ⟨hobject, hdata, hunbound, hzero, hlock⟩
  | begins hpc => exact ⟨rfl, nofun, nofun, nofun, fun _ => rfl⟩
  | setsData hpc =>
      rw [hpc] at hobject hlock
      exact ⟨hobject, fun _ => rfl, nofun, nofun, hlock⟩
  | fails hpc =>
      rw [hpc] at hobject hlock
      exact ⟨hobject, nofun, nofun, nofun, hlock⟩
  | mismatches hpc =>
      rw [hpc] at hobject hdata hlock
      have hsome : x.drvdata.isSome = true := by
        rw [hdata rfl]
        exact hobject
      exact ⟨hobject, nofun, nofun, fun _ => hsome, hlock⟩
  | ends hpc =>
      rcases hpc with hpc | hpc
      all_goals
        rw [hpc] at hobject hlock
        exact ⟨hobject, nofun, nofun, nofun, hlock⟩
  | starts hpc | creates hpc hafter =>
      rw [hpc] at hobject hdata hlock
      exact ⟨hobject, hdata, nofun, nofun, hlock⟩
  | binds hpc hafter =>
      rw [hpc] at hobject hdata
      exact ⟨hobject, hdata, nofun, nofun, nofun⟩
  | @givesUp a hpc | @undoes a hpc hdrained =>
      rw [hpc] at hobject hdata hlock
      cases a <;> exact ⟨hobject, fun _ => hdata rfl, nofun, nofun, hlock⟩
  | unlocks hpc =>
      rw [hpc] at hobject hzero
      exact ⟨hobject, nofun, nofun, hzero, nofun⟩
  | locks hpc =>
      rw [hpc] at hobject hzero
      exact ⟨hobject, nofun, nofun, hzero, fun _ => rfl⟩
  | discards hpc =>
      rw [hpc] at hzero
      exact ⟨rfl, nofun, nofun, hzero, nofun⟩
  | dangles hpc =>
      rw [hpc] at hobject hzero
      exact ⟨hobject, nofun, nofun, hzero, nofun⟩
  | clears hpc =>
      rw [hpc] at hobject
      exact ⟨hobject, nofun, fun _ => rfl, nofun, nofun⟩
  | leaves hpc hsame hsome => exact ⟨hsome, fun _ => hsame, nofun, nofun, nofun⟩
  | forgets hpc hnone =>
      refine ⟨?_, nofun, fun _ => hnone, nofun, nofun⟩
      rcases hpc with hpc | hpc
      · rw [hpc] at hobject hdata
        rw [← hdata rfl, hnone] at hobject
        cases hobject
      · rw [hpc] at hobject
        exact hobject
  | removes hpc hbefore hdrained | removesLast hpc hbefore hdrained =>
      rw [hpc] at hobject hdata
      exact ⟨hobject, hdata, nofun, nofun, nofun⟩
  | frees hpc => exact ⟨rfl, nofun, fun _ => rfl, nofun, nofun⟩

end Attributes

end Ldd3.Edu
