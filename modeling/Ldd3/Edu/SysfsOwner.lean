import Ldd3.Edu.Sysfs

/-!
# Which device the attributes serve

In a run in which no probe starts while the files exist, at most one device at a time needs
`qedu_dev`, the files are the ones that this device has created, and everybody in their functions
has read its object. `sysfs_safe_iff` and `failed_probe_ends_iff` follow.
-/

namespace Ldd3.Edu

open Ldd3.Machine

/-- What an access has read so far leads to a device and its driver data. -/
def AccessPc.Reads (d : Nat) (data : Option Nat) : AccessPc → Prop
  | entered => True
  | dev p => p = some d
  | edu d' e => d' = d ∧ e = data

namespace Attributes

/-- No device needs `qedu_dev`. -/
structure Idle (s : Attributes) : Prop where
  free : ∀ d, (s.devices d).pc.busy = false
  files : ∀ a, s.files a = false
  accesses : s.accesses = []

/-- One device needs `qedu_dev`, and the files and the accesses are its own. -/
structure Owned (s : Attributes) (d : Nat) : Prop where
  busy : (s.devices d).pc.busy = true
  alone : ∀ d', d' ≠ d → (s.devices d').pc.busy = false
  dev : s.qeduDev = some d
  files : s.files = (s.devices d).pc.shows
  inside : ∀ c ∈ s.accesses,
    s.files c.attr = true ∧ c.pc.Reads d (s.devices d).drvdata

/-- The invariant of the runs in which no probe starts while the files exist. -/
structure Served (s : Attributes) : Prop where
  sound : ∀ d, (s.devices d).Sound
  owner : s.Idle ∨ ∃ d, s.Owned d

theorem served_init : Served init :=
  ⟨fun _ => ⟨rfl, nofun, fun _ => rfl, nofun, nofun⟩, .inl ⟨fun _ => rfl, fun _ => rfl, rfl⟩⟩

/-- The object behind a file exists, and the driver data point to it. -/
theorem Owned.data {s : Attributes} {d : Nat} {a : Attribute} (hs : s.Owned d)
    (hsound : (s.devices d).Sound) (hfile : s.files a = true) :
    ∃ n, (s.devices d).drvdata = some n ∧ (s.devices d).object = some n := by
  obtain ⟨-, hdata, hobject, -⟩ := DevicePc.busy_of_shows ((congrFun hs.files a).symm.trans hfile)
  obtain ⟨n, hn⟩ := Option.isSome_iff_exists.mp (hsound.object.trans hobject)
  exact ⟨n, (hsound.data hdata).trans hn, hn⟩

/-- A step of a device that does not need `qedu_dev` starts its probe, or changes nothing that
others see. -/
theorem device_step_of_free {s : Attributes} {d : Nat} {x y : EduDevice} {files : Attribute → Bool}
    {q : Option Nat} (hx : x.Sound) (hfree : x.pc.busy = false) (h : DeviceStep s d x y files q) :
    files = s.files ∧
      ((x.pc = .unbound ∧ y.pc = .setup ∧ q = some d) ∨ (y.pc.busy = false ∧ q = s.qeduDev)) := by
  cases h with
  | refused => exact ⟨rfl, .inr ⟨hfree, rfl⟩⟩
  | begins hpc => exact ⟨rfl, .inl ⟨hpc, rfl, rfl⟩⟩
  | leaves hpc hdata hsome =>
      rcases hpc with hpc | hpc
      · rw [hpc] at hfree
        cases hfree
      · -- the object has been freed
        rw [hx.object, hpc] at hsome
        cases hsome
  | forgets | frees => exact ⟨rfl, .inr ⟨rfl, rfl⟩⟩
  | ends hpc =>
      rcases hpc with hpc | hpc <;> rw [hpc] at hfree <;> cases hfree
  | setsData hpc | fails hpc | mismatches hpc | starts hpc | creates hpc | binds hpc | givesUp hpc
  | undoes hpc | unlocks hpc | locks hpc | discards hpc | dangles hpc | clears hpc | removes hpc
  | removesLast hpc =>
      rw [hpc] at hfree
      cases hfree

/-- What a step of the device that needs `qedu_dev` leaves to the others. -/
structure Handover (s : Attributes) (x y : EduDevice) (files : Attribute → Bool) (q : Option Nat) :
    Prop where
  shows : files = y.pc.shows
  dev : y.pc.busy = true → q = s.qeduDev
  inside : ∀ c ∈ s.accesses, s.files c.attr = true →
    files c.attr = true ∧ y.drvdata = x.drvdata

/-- A step that changes neither the files nor the driver data. -/
theorem handover_same {s : Attributes} {x y : EduDevice} (hfiles : s.files = y.pc.shows)
    (hdata : y.drvdata = x.drvdata) : Handover s x y s.files s.qeduDev :=
  ⟨hfiles, fun _ => rfl, fun _ _ hfile => ⟨hfile, hdata⟩⟩

/-- A step while there are no files. -/
theorem handover_bare {s : Attributes} {x y : EduDevice} {q : Option Nat}
    (hbefore : s.files = x.pc.shows) (hsame : x.pc.shows = y.pc.shows)
    (hnone : ∀ a, y.pc.shows a = false) (hdev : y.pc.busy = true → q = s.qeduDev) :
    Handover s x y s.files q := by
  refine ⟨hbefore.trans hsame, hdev, fun c _ hfile => ?_⟩
  rw [hbefore, hsame, hnone] at hfile
  cases hfile

/-- The removal of a file waits for the accesses to it. -/
theorem handover_removal {s : Attributes} {x y : EduDevice} {a : Attribute}
    (hfiles : Function.update s.files a false = y.pc.shows) (hdrained : s.Drained a)
    (hdata : y.drvdata = x.drvdata) :
    Handover s x y (Function.update s.files a false) s.qeduDev := by
  refine ⟨hfiles, fun _ => rfl, fun c hc hfile => ⟨?_, hdata⟩⟩
  rw [Function.update_of_ne (hdrained c hc)]
  exact hfile

/-- The creation of a file changes no other. -/
theorem handover_creation {s : Attributes} {x y : EduDevice} {a : Attribute}
    (hfiles : Function.update s.files a true = y.pc.shows) (hdata : y.drvdata = x.drvdata) :
    Handover s x y (Function.update s.files a true) s.qeduDev := by
  refine ⟨hfiles, fun _ => rfl, fun c _ hfile => ⟨?_, hdata⟩⟩
  by_cases hattr : c.attr = a
  · rw [hattr, Function.update_self]
  · rw [Function.update_of_ne hattr]
    exact hfile

/-- Every step of the device that needs `qedu_dev` keeps what the accesses rely on. -/
theorem handover_of_device_step {s : Attributes} {d : Nat} {x y : EduDevice}
    {files : Attribute → Bool} {q : Option Nat} (hx : x.Sound) (hbusy : x.pc.busy = true)
    (hfiles : s.files = x.pc.shows) (h : DeviceStep s d x y files q) :
    Handover s x y files q := by
  cases h with
  | refused => exact handover_same hfiles rfl
  | begins hpc | frees hpc =>
      rw [hpc] at hbusy
      cases hbusy
  | setsData hpc | fails hpc | mismatches hpc | unlocks hpc | locks hpc | discards hpc =>
      exact handover_bare hfiles (by rw [hpc]; rfl) (fun _ => rfl) (fun _ => rfl)
  | starts hpc =>
      refine handover_bare hfiles ?_ (fun a => ?_) (fun _ => rfl)
      · rw [hpc]
        funext a
        cases a <;> rfl
      · cases a <;> rfl
  | ends hpc =>
      refine handover_bare hfiles ?_ (fun _ => rfl) (fun _ => rfl)
      rcases hpc with hpc | hpc <;> rw [hpc] <;> rfl
  | dangles hpc | clears hpc =>
      exact handover_bare hfiles (by rw [hpc]; rfl) (fun _ => rfl) nofun
  | creates hpc hafter =>
      refine handover_creation ?_ rfl
      rw [hfiles, hpc]
      exact DevicePc.shows_create hafter
  | binds hpc hafter =>
      refine handover_creation ?_ rfl
      rw [hfiles, hpc]
      exact DevicePc.shows_create_last hafter
  | @givesUp a hpc =>
      refine handover_same ?_ rfl
      rw [hfiles, hpc]
      exact DevicePc.shows_give_up a
  | @undoes a hpc hdrained =>
      refine handover_removal ?_ hdrained rfl
      rw [hfiles, hpc]
      exact DevicePc.shows_undo a
  | leaves hpc hdata hsome =>
      rcases hpc with hpc | hpc
      · refine handover_same ?_ rfl
        rw [hfiles, hpc]
        exact DevicePc.shows_leave
      · rw [hpc] at hbusy
        cases hbusy
  | forgets hpc hnone =>
      rcases hpc with hpc | hpc
      · have hsame := hx.data (by rw [hpc]; rfl)
        have hsome := hx.object
        rw [← hsame, hnone, hpc] at hsome
        cases hsome
      · rw [hpc] at hbusy
        cases hbusy
  | removes hpc hbefore hdrained =>
      refine handover_removal ?_ hdrained rfl
      rw [hfiles, hpc]
      exact DevicePc.shows_remove hbefore
  | removesLast hpc hbefore hdrained =>
      refine handover_removal ?_ hdrained rfl
      rw [hfiles, hpc]
      exact DevicePc.shows_remove_last hbefore

/-- A device that does not need `qedu_dev` takes a step while nobody does. -/
theorem Idle.become {s : Attributes} {d : Nat} {y : EduDevice} {files : Attribute → Bool}
    {q : Option Nat} (hs : s.Idle) (hx : (s.devices d).Sound)
    (h : DeviceStep s d (s.devices d) y files q) :
    (s.become d y files q).Idle ∨ (s.become d y files q).Owned d := by
  have hother : ∀ d', d' ≠ d → ((s.become d y files q).devices d').pc.busy = false := by
    intro d' hne
    rw [become_devices_of_ne hne]
    exact hs.free d'
  have hself := s.become_devices_self d y files q
  obtain ⟨rfl, ⟨-, hsetup, rfl⟩ | ⟨hbusy, rfl⟩⟩ := device_step_of_free hx (hs.free d) h
  · refine .inr ⟨?_, hother, rfl, ?_, ?_⟩
    · rw [hself, hsetup]
      rfl
    · rw [hself, hsetup]
      exact funext hs.files
    · intro c hc
      have hmem : c ∈ s.accesses := hc
      rw [hs.accesses] at hmem
      cases hmem
  · refine .inl ⟨fun d' => ?_, hs.files, hs.accesses⟩
    by_cases hd : d' = d
    · rw [hd, hself]
      exact hbusy
    · exact hother d' hd

/-- Another device takes a step that does not start a probe. -/
theorem Owned.become_other {s : Attributes} {d d' : Nat} {y : EduDevice}
    {files : Attribute → Bool} {q : Option Nat} (hs : s.Owned d) (hne : d' ≠ d)
    (hx : (s.devices d').Sound) (h : DeviceStep s d' (s.devices d') y files q)
    (hstart : (s.devices d').pc = .unbound → y.pc ≠ .setup) : (s.become d' y files q).Owned d := by
  have hself := become_devices_of_ne (s := s) hne.symm y files q
  obtain ⟨rfl, ⟨hunbound, hsetup, -⟩ | ⟨hbusy, rfl⟩⟩ := device_step_of_free hx (hs.alone d' hne) h
  · exact absurd hsetup (hstart hunbound)
  · refine ⟨?_, fun d'' hd'' => ?_, hs.dev, ?_, ?_⟩
    · rw [hself]
      exact hs.busy
    · by_cases heq : d'' = d'
      · rw [heq, become_devices_self]
        exact hbusy
      · rw [become_devices_of_ne heq]
        exact hs.alone d'' hd''
    · rw [hself]
      exact hs.files
    · rw [hself]
      exact hs.inside

/-- The device that needs `qedu_dev` takes a step, and may then need it no more. -/
theorem Owned.become_self {s : Attributes} {d : Nat} {y : EduDevice} {files : Attribute → Bool}
    {q : Option Nat} (hs : s.Owned d) (hx : (s.devices d).Sound)
    (h : DeviceStep s d (s.devices d) y files q) :
    (s.become d y files q).Idle ∨ (s.become d y files q).Owned d := by
  obtain ⟨rfl, hdev, hinside⟩ := handover_of_device_step hx hs.busy hs.files h
  have hself := s.become_devices_self d y y.pc.shows q
  have hother : ∀ d', d' ≠ d → ((s.become d y y.pc.shows q).devices d').pc.busy = false := by
    intro d' hne
    rw [become_devices_of_ne hne]
    exact hs.alone d' hne
  have hkept : ∀ c ∈ s.accesses, y.pc.shows c.attr = true ∧ c.pc.Reads d y.drvdata := by
    intro c hc
    obtain ⟨hfile, hreads⟩ := hs.inside c hc
    obtain ⟨hshows, hdata⟩ := hinside c hc hfile
    rw [hdata]
    exact ⟨hshows, hreads⟩
  cases hbusy : y.pc.busy with
  | true =>
      refine .inr ⟨?_, hother, (hdev hbusy).trans hs.dev, ?_, ?_⟩
      · rw [hself]
        exact hbusy
      · rw [hself]
        rfl
      · rw [hself]
        exact hkept
  | false =>
      have hnone : ∀ a, y.pc.shows a = false := by
        intro a
        rw [← Bool.not_eq_true]
        intro hshows
        rw [(DevicePc.busy_of_shows hshows).1] at hbusy
        cases hbusy
      refine .inl ⟨fun d' => ?_, hnone, List.eq_nil_iff_forall_not_mem.mpr fun c hc => ?_⟩
      · by_cases hd : d' = d
        · rw [hd, hself]
          exact hbusy
        · exact hother d' hd
      · have hshows := (hkept c hc).1
        rw [hnone] at hshows
        cases hshows

/-- A probe starts only while no other is running, as when the driver core looks for devices. -/
def Serial (s : Attributes) : AttributesAction → Prop
  | .probe d _ => (s.devices d).pc = .unbound → ∀ d', (s.devices d').pc.probing = false
  | _ => True

/-- A probe gets its memory only while the files do not exist, and no device is removed whose probe
has returned 0 after it has freed the object. -/
def Allowed (s : Attributes) : AttributesAction → Prop
  | .probe d r => r = .ok → (s.devices d).pc = .unbound → s.files .version = false
  | .remove d => (s.devices d).pc ≠ .dangling
  | _ => True

/-- Every file leads to an object: `qedu_dev` is a device whose driver data point to its object. -/
def Answers (s : Attributes) : Prop :=
  ∀ a, s.files a = true → ∃ d n,
    s.qeduDev = some d ∧ (s.devices d).drvdata = some n ∧ (s.devices d).object = some n

theorem Served.answers {s : Attributes} (hs : s.Served) : s.Answers := by
  intro a hfile
  obtain ⟨hsound, hidle | ⟨d, hd⟩⟩ := hs
  · rw [hidle.files] at hfile
    cases hfile
  · obtain ⟨n, hdata, hobject⟩ := hd.data (hsound d) hfile
    exact ⟨d, n, hd.dev, hdata, hobject⟩

/-- A step of a device keeps the invariant, if it does not start a probe beside another device. -/
theorem Served.become {s : Attributes} {d : Nat} {y : EduDevice} {files : Attribute → Bool}
    {q : Option Nat} (hs : s.Served) (h : DeviceStep s d (s.devices d) y files q)
    (hstart : (s.devices d).pc = .unbound → y.pc = .setup → ∀ d', ¬ s.Owned d') :
    (s.become d y files q).Served := by
  obtain ⟨hsound, howner⟩ := hs
  refine ⟨?_, ?_⟩
  · have hother : ∀ d', d' ≠ d → (s.devices d').Sound := fun d' _ => hsound d'
    exact Function.forall_update_iff _ _ |>.mpr ⟨sound_of_device_step (hsound d) h, hother⟩
  · rcases howner with hidle | ⟨d', hd'⟩
    · exact (hidle.become (hsound d) h).imp_right fun howned => ⟨d, howned⟩
    · by_cases hd : d = d'
      · subst hd
        exact (hd'.become_self (hsound d) h).imp_right fun howned => ⟨d, howned⟩
      · exact .inr ⟨d', hd'.become_other hd (hsound d) h fun hpc hsetup => hstart hpc hsetup d' hd'⟩

/-- The accesses change. -/
def withAccesses (s : Attributes) (cs : List Access) : Attributes := { s with accesses := cs }

/-- What a step of an access can be while a device needs `qedu_dev`: it reads, or it uses the
object or leaves, and the lock is free if the function takes it. -/
theorem Owned.touch_cases {s t : Attributes} {d i : Nat} {c : Access} {last : Bool}
    {e : AttributesEvent} (hs : s.Owned d) (hx : (s.devices d).Sound) (hc : c ∈ s.accesses)
    (h : s.touch i c last = some (t, e)) :
    (∃ pc : AccessPc, pc.Reads d (s.devices d).drvdata ∧
        t = s.withAccesses (s.accesses.set i { c with pc := pc }) ∧ e = .quiet) ∨
      ((c.fn.locks = false ∨ (s.devices d).locked = false) ∧
        (t = s ∨ t = s.withAccesses (s.accesses.eraseIdx i)) ∧ e ≠ .oops) := by
  obtain ⟨hfile, hreads⟩ := hs.inside c hc
  obtain ⟨n, hdata, hobject⟩ := hs.data hx hfile
  unfold touch at h
  split at h
  case h_1 hpc =>
      cases h
      exact .inl ⟨.dev s.qeduDev, hs.dev, rfl, rfl⟩
  case h_2 hpc =>
      rw [hpc] at hreads
      cases hreads
  case h_3 d' hpc =>
      rw [hpc] at hreads
      cases hreads
      cases h
      exact .inl ⟨.edu d (s.devices d).drvdata, ⟨rfl, rfl⟩, rfl, rfl⟩
  case h_4 d' m hpc =>
      rw [hpc] at hreads
      obtain ⟨rfl, rfl⟩ := hreads
      have hlive : ¬((s.devices d').drvdata = none ∨
          (s.devices d').object ≠ (s.devices d').drvdata) := by
        rw [hdata, hobject]
        simp
      rw [if_neg hlive] at h
      split_ifs at h with hrejects hlock hlast
      · cases h
        exact .inr ⟨.inl (AttributeFunction.locks_of_rejects hrejects), .inr rfl, nofun⟩
      · cases h
        rw [not_and_or, Bool.not_eq_true, Bool.not_eq_true] at hlock
        exact .inr ⟨hlock, .inr rfl, nofun⟩
      · cases h
        rw [not_and_or, Bool.not_eq_true, Bool.not_eq_true] at hlock
        exact .inr ⟨hlock, .inl rfl, nofun⟩

theorem Owned.with_accesses {s : Attributes} {d : Nat} {cs : List Access} (hs : s.Owned d)
    (hinside : ∀ c ∈ cs, s.files c.attr = true ∧ c.pc.Reads d (s.devices d).drvdata) :
    (s.withAccesses cs).Owned d :=
  ⟨hs.busy, hs.alone, hs.dev, hs.files, hinside⟩

/-- A step of an access keeps the invariant, and meets a live object. -/
theorem Owned.touch {s t : Attributes} {d i : Nat} {c : Access} {last : Bool}
    {e : AttributesEvent} (hs : s.Owned d) (hx : (s.devices d).Sound)
    (hc : s.accesses[i]? = some c) (h : s.touch i c last = some (t, e)) :
    t.Owned d ∧ t.devices = s.devices ∧ e ≠ .oops := by
  have hmem : c ∈ s.accesses := List.mem_of_getElem? hc
  rcases hs.touch_cases hx hmem h with ⟨pc, hreads, rfl, rfl⟩ | ⟨-, rfl | rfl, hquiet⟩
  · refine ⟨hs.with_accesses fun c' hc' => ?_, rfl, nofun⟩
    rcases List.mem_or_eq_of_mem_set hc' with hold | rfl
    · exact hs.inside c' hold
    · exact ⟨(hs.inside c hmem).1, hreads⟩
  · exact ⟨hs, rfl, hquiet⟩
  · exact ⟨hs.with_accesses fun c' hc' => hs.inside c' (List.mem_of_mem_eraseIdx hc'), rfl, hquiet⟩

/-- Only a probe of an unbound device with memory starts one. -/
theorem qedu_probe_starts {s : Attributes} {d : Nat} {r : ProbeOutcome} {y : EduDevice}
    {files : Attribute → Bool} {q : Option Nat} (hpc : (s.devices d).pc = .unbound)
    (hy : y.pc = .setup) (h : s.qeduProbe d r = some (s.become d y files q)) : r = .ok := by
  by_contra hr
  unfold qeduProbe at h
  simp only [hpc, if_neg hr, Option.some.injEq] at h
  have hself := s.become_devices_self d y files q
  rw [← h] at hself
  rw [← hself, hpc] at hy
  cases hy

/-- A removal keeps the invariant, and the kernel survives it unless the probe was mistaken. -/
theorem Served.remove {s t : Attributes} {d : Nat} {e : AttributesEvent} (hs : s.Served)
    (h : s.qeduRemove d = some (t, e)) :
    t.Served ∧ ((s.devices d).pc ≠ .dangling → e ≠ .oops) := by
  rcases left_of_remove h with ⟨y, files, q, hdevice, rfl, rfl⟩ | ⟨rfl, rfl, hpc, hdata⟩
  · refine ⟨hs.become hdevice fun hpc _ => ?_, nofun⟩
    -- a removal does not start from an unbound device
    unfold qeduRemove at h
    simp only [hpc] at h
    cases h
  · refine ⟨hs, fun hne => ?_⟩
    rcases hpc with hpc | hpc
    · exact absurd ((hs.sound d).data (by rw [hpc]; rfl)) hdata
    · exact absurd hpc hne

/-- A step that the rules allow keeps the invariant, and the kernel survives it. -/
theorem Served.step {s t : Attributes} {a : AttributesAction} {e : AttributesEvent}
    (hs : s.Served) (hserial : s.Serial a) (hallowed : s.Allowed a)
    (h : s.step a = some (t, e)) : t.Served ∧ e ≠ .oops := by
  cases a with
  | probe d r =>
      obtain ⟨t', hprobe, heq⟩ := Option.map_eq_some_iff.mp h
      cases heq
      obtain ⟨y, files, q, hdevice, rfl⟩ := device_step_of_probe hprobe
      refine ⟨hs.become hdevice fun hpc hy d' howned => ?_, nofun⟩
      have hfile := hallowed (qedu_probe_starts hpc hy hprobe) hpc
      rw [howned.files, DevicePc.shows_of_busy howned.busy (hserial hpc d')] at hfile
      cases hfile
  | remove d =>
      obtain ⟨hserved, hquiet⟩ := hs.remove h
      exact ⟨hserved, hquiet hallowed⟩
  | enter fn =>
      unfold Attributes.step at h
      dsimp only at h
      split_ifs at h with hfile
      cases h
      refine ⟨⟨hs.sound, ?_⟩, nofun⟩
      rcases hs.owner with hidle | ⟨d, hd⟩
      · rw [hidle.files] at hfile
        cases hfile
      · refine .inr ⟨d, hd.with_accesses fun c hc => ?_⟩
        rcases List.mem_append.mp hc with hold | hnew
        · exact hd.inside c hold
        · cases List.mem_singleton.mp hnew
          exact ⟨hfile, trivial⟩
  | access i last =>
      obtain ⟨c, hc, htouch⟩ := Option.bind_eq_some_iff.mp h
      rcases hs.owner with hidle | ⟨d, hd⟩
      · rw [hidle.accesses] at hc
        cases hc
      · obtain ⟨howned, hdevices, hquiet⟩ := hd.touch (hs.sound d) hc htouch
        refine ⟨⟨?_, .inr ⟨d, howned⟩⟩, hquiet⟩
        rw [hdevices]
        exact hs.sound

/-- A step that breaks the rules leaves a file without an object, or the kernel oopses. -/
theorem Served.allowed {s t : Attributes} {a : AttributesAction} {e : AttributesEvent}
    (hs : s.Served) (h : s.step a = some (t, e)) (hanswers : t.Answers) (hquiet : e ≠ .oops) :
    s.Allowed a := by
  cases a with
  | probe d r =>
      intro hr hpc
      rw [← Bool.not_eq_true]
      intro hfile
      subst hr
      unfold Attributes.step qeduProbe at h
      simp only [hpc, if_pos, Option.map_some, Option.some.injEq, Prod.mk.injEq] at h
      obtain ⟨rfl, -⟩ := h
      obtain ⟨d', n, hdev, hdata, -⟩ := hanswers .version hfile
      cases hdev
      have hnone := (hs.sound d).unbound hpc
      simp only [put, Function.update_self] at hdata
      rw [hnone] at hdata
      cases hdata
  | remove d =>
      intro hpc
      have hsound := hs.sound d
      have hsome := hsound.mistaken (by rw [hpc]; rfl)
      obtain ⟨n, hn⟩ := Option.isSome_iff_exists.mp hsome
      have hnone : (s.devices d).object = none := by
        rw [← Option.not_isSome_iff_eq_none, hsound.object, hpc]
        exact Bool.false_ne_true
      unfold Attributes.step qeduRemove leave at h
      simp only [hpc, hn, hnone, reduceCtorEq, if_false, Option.some.injEq, Prod.mk.injEq] at h
      exact hquiet h.2.symm
  | enter fn => trivial
  | access i last => trivial

/-- With any number of devices, whose probes run one at a time, every file always leads to a live
object and the kernel never oopses exactly if no probe gets its memory while the files exist and no
device is removed whose probe has returned 0 after a wrong ID. -/
theorem sysfs_safe_iff {actions : List AttributesAction}
    (hserial : ∀ t a e t', Takes step init actions t a e t' → t.Serial a) :
    ((∀ t, Visits step init actions t → t.Answers) ∧
        (∀ t a e t', Takes step init actions t a e t' → e ≠ .oops)) ↔
      ∀ t a e t', Takes step init actions t a e t' → t.Allowed a :=
  holds_iff_guarded (I := Served) (S := fun t a _ _ => t.Serial a) (Q := fun _ _ e _ => e ≠ .oops)
    (fun _ _ _ _ ht hS hG hstep => (ht.step hS hG hstep).1)
    (fun _ ht => ht.answers)
    (fun _ _ _ _ ht hS hG hstep => (ht.step hS hG hstep).2)
    (fun _ _ _ _ ht _ hstep hP hQ => ht.allowed hstep hP hQ)
    served_init hserial

/-- A boolean test for one probe at a time among two devices. -/
def serialTwo (s : Attributes) : AttributesAction → Bool
  | .probe d _ => (s.devices d).pc ≠ .unbound ||
      (!(s.devices 0).pc.probing && !(s.devices 1).pc.probing)
  | _ => true

theorem serial_of_serial_two {actions : List AttributesAction}
    (hdevices : ∀ a ∈ actions, ∀ d, a.device = some d → d < 2)
    (htest : admits step serialTwo init actions = true) :
    ∀ t a e t', Takes step init actions t a e t' → t.Serial a := by
  intro t a e t' htake
  have hrest : ∀ d, 2 ≤ d → (t.devices d).pc.probing = false := by
    refine htake.source.invariant_of_guard
      (I := fun t => ∀ d, 2 ≤ d → (t.devices d).pc.probing = false)
      (G := fun _ a _ _ => a ∈ actions) ?_ (fun _ _ => rfl) fun _ _ _ _ h => h.action_mem
    intro t a e t' ht hmem hstep d hd
    rw [step_devices hstep fun heq => ?_]
    · exact ht d hd
    · have hlt := hdevices a hmem d heq
      omega
  have hpass := guard_of_admits htest t a e t' htake
  cases a with
  | probe d r =>
      intro hpc d'
      simp only [serialTwo, hpc, ne_eq, not_true_eq_false, decide_false, Bool.false_or,
        Bool.and_eq_true, Bool.not_eq_true'] at hpass
      rcases d' with _ | _ | d'
      · exact hpass.1
      · exact hpass.2
      · exact hrest _ (by omega)
  | _ => trivial

/-- A device is probed and its version read, it is removed, and another is probed. -/
def replaced : List AttributesAction :=
  List.replicate 6 (.probe 0 .ok) ++
    [.enter .versionShow, .access 0 false, .access 0 false, .access 0 true] ++
    List.replicate 5 (.remove 0) ++ List.replicate 6 (.probe 1 .ok)

/-- The rules for the start of a probe and of a removal as a test. -/
def allowedTest (s : Attributes) : AttributesAction → Bool
  | .probe d r => r ≠ .ok || (s.devices d).pc ≠ .unbound || !s.files .version
  | .remove d => (s.devices d).pc ≠ .dangling
  | _ => true

theorem allowed_of_test {s : Attributes} {a : AttributesAction} (h : s.allowedTest a = true) :
    s.Allowed a := by
  cases a with
  | probe d r =>
      intro hr hpc
      simpa [allowedTest, hr, hpc] using h
  | remove d =>
      show (s.devices d).pc ≠ .dangling
      exact of_decide_eq_true h
  | _ => trivial

theorem sysfs_safe_replaced :
    (∃ t es, run step init replaced = some (t, es) ∧ t.qeduDev = some 1) ∧
      ∀ t, Visits step init replaced t → t.Answers := by
  have hrun : (run step init replaced).map (fun r => r.1.qeduDev) = some (some 1) := rfl
  obtain ⟨⟨t, es⟩, ht, hdev⟩ := Option.map_eq_some_iff.mp hrun
  have hserial : ∀ t a e t', Takes step init replaced t a e t' → t.Serial a :=
    serial_of_serial_two (by decide) rfl
  have hallowed : ∀ t a e t', Takes step init replaced t a e t' → t.Allowed a :=
    fun t a e t' htake => allowed_of_test (guard_of_admits (G := allowedTest) rfl t a e t' htake)
  exact ⟨⟨t, es, ht, hdev⟩, ((sysfs_safe_iff hserial).mpr hallowed).1⟩

/-- A busy device is the one that `qedu_dev` serves. -/
theorem Served.owned {s : Attributes} {d : Nat} (hs : s.Served)
    (hbusy : (s.devices d).pc.busy = true) : s.Owned d := by
  rcases hs.owner with hidle | ⟨d', hd'⟩
  · rw [hidle.free] at hbusy
    cases hbusy
  · by_cases hd : d = d'
    · rw [hd]
      exact hd'
    · rw [hd'.alone d hd] at hbusy
      cases hbusy

/-- Somebody is in the functions of `inverse` and will take the lock. -/
def WantsLock (s : Attributes) : Prop := ∃ c ∈ s.accesses, c.attr = .inverse ∧ c.fn.locks = true

/-- A probe removes `inverse` again with the lock held, and somebody will take it. -/
structure Stuck (s : Attributes) (d : Nat) : Prop where
  served : s.Served
  pc : (s.devices d).pc = .undoing .inverse
  inside : s.WantsLock

/-- An access that reads stays in its function. -/
theorem map_fn_set {cs : List Access} {i : Nat} {c : Access} (hc : cs[i]? = some c)
    (pc : AccessPc) : (cs.set i { c with pc := pc }).map Access.fn = cs.map Access.fn := by
  rw [List.map_set]
  apply List.ext_getElem?
  intro j
  rw [List.getElem?_set]
  split_ifs with hij hlt
  · rw [← hij, List.getElem?_map, hc]
    rfl
  · rw [List.getElem?_eq_none (by omega)]
  · rfl

/-- Whoever reads still wants the lock. -/
theorem WantsLock.read {s : Attributes} {i : Nat} {c : Access} (hs : s.WantsLock)
    (hc : s.accesses[i]? = some c) (pc : AccessPc) :
    (s.withAccesses (s.accesses.set i { c with pc := pc })).WantsLock := by
  obtain ⟨c', hc', hwants⟩ := hs
  have hfn : c'.fn ∈ (s.accesses.set i { c with pc := pc }).map Access.fn := by
    rw [map_fn_set hc]
    exact List.mem_map_of_mem hc'
  obtain ⟨c'', hc'', hsame⟩ := List.mem_map.mp hfn
  refine ⟨c'', hc'', ?_⟩
  unfold Access.attr
  rw [hsame]
  exact hwants

/-- Somebody else leaves, who has not taken the lock. -/
theorem WantsLock.leave {s : Attributes} {i : Nat} {c : Access} (hs : s.WantsLock)
    (hc : s.accesses[i]? = some c) (hpasses : c.fn.locks = false) :
    (s.withAccesses (s.accesses.eraseIdx i)).WantsLock := by
  obtain ⟨c', hc', hattr, hlocks⟩ := hs
  obtain ⟨j, hj⟩ := List.mem_iff_getElem?.mp hc'
  refine ⟨c', List.mem_eraseIdx_iff_getElem?.mpr ⟨j, ?_, hj⟩, hattr, hlocks⟩
  rintro rfl
  rw [hc] at hj
  cases hj
  rw [hpasses] at hlocks
  cases hlocks

/-- The probe that waits for an access takes no step. -/
theorem Stuck.device_ne {s t : Attributes} {d : Nat} {a : AttributesAction} {e : AttributesEvent}
    (hs : s.Stuck d) (h : s.step a = some (t, e)) : a.device ≠ some d := by
  obtain ⟨-, hpc, c, hc, hattr, -⟩ := hs
  intro heq
  cases a with
  | probe d' r =>
      cases heq
      have hbusy : ¬ s.Drained .inverse := fun hdrained => hdrained c hc hattr
      unfold Attributes.step qeduProbe at h
      simp only [hpc, if_neg hbusy] at h
      cases h
  | remove d' =>
      cases heq
      unfold Attributes.step qeduRemove at h
      simp only [hpc] at h
      cases h
  | enter | access => cases heq

/-- The step of an access keeps somebody who wants the lock. -/
theorem Stuck.touch {s t : Attributes} {d i : Nat} {c : Access} {last : Bool}
    {e : AttributesEvent} (hs : s.Stuck d) (hc : s.accesses[i]? = some c)
    (h : s.touch i c last = some (t, e)) : t.WantsLock := by
  obtain ⟨hserved, hpc, hinside⟩ := hs
  have hsound := hserved.sound d
  have hbusy : (s.devices d).pc.busy = true := by
    rw [hpc]
    rfl
  rcases (hserved.owned hbusy).touch_cases hsound (List.mem_of_getElem? hc) h with
    ⟨pc, -, rfl, -⟩ | ⟨hfree, rfl | rfl, -⟩
  · exact hinside.read hc pc
  · exact hinside
  · refine hinside.leave hc (hfree.resolve_right fun hunlocked => ?_)
    rw [hsound.lock (by rw [hpc]; rfl)] at hunlocked
    cases hunlocked

/-- No step of anybody ends this. -/
theorem Stuck.step {s t : Attributes} {d : Nat} {a : AttributesAction} {e : AttributesEvent}
    (hs : s.Stuck d) (hserial : s.Serial a) (h : s.step a = some (t, e)) : t.Stuck d := by
  have hpc : (t.devices d).pc = .undoing .inverse := by
    rw [step_devices h (hs.device_ne h)]
    exact hs.pc
  cases a with
  | probe d' r =>
      -- no other probe starts
      have hstarted : (s.devices d').pc ≠ .unbound := by
        intro hunbound
        have hprobing := hserial hunbound d
        rw [hs.pc] at hprobing
        cases hprobing
      refine ⟨(hs.served.step hserial (fun _ hunbound => absurd hunbound hstarted) h).1, hpc, ?_⟩
      obtain ⟨t', hprobe, heq⟩ := Option.map_eq_some_iff.mp h
      cases heq
      obtain ⟨y, files, q, -, rfl⟩ := device_step_of_probe hprobe
      exact hs.inside
  | remove d' =>
      refine ⟨(hs.served.remove h).1, hpc, ?_⟩
      rcases left_of_remove h with ⟨y, files, q, -, rfl, -⟩ | ⟨rfl, -⟩
      all_goals exact hs.inside
  | enter fn =>
      refine ⟨(hs.served.step hserial trivial h).1, hpc, ?_⟩
      unfold Attributes.step at h
      dsimp only at h
      split_ifs at h
      cases h
      obtain ⟨c, hc, hwants⟩ := hs.inside
      exact ⟨c, List.mem_append_left _ hc, hwants⟩
  | access i last =>
      obtain ⟨c, hc, htouch⟩ := Option.bind_eq_some_iff.mp h
      exact ⟨(hs.served.step hserial trivial h).1, hpc, hs.touch hc htouch⟩

/-- The probe that removes `inverse` again gets further in some continuation. -/
def GetsFurther (s : Attributes) (d : Nat) : Prop :=
  ∃ more t es, run step s more = some (t, es) ∧
    (∀ t a e t', Takes step s more t a e t' → t.Serial a) ∧
    (t.devices d).pc ≠ .undoing .inverse

theorem GetsFurther.of_step {s t : Attributes} {d : Nat} {a : AttributesAction}
    {e : AttributesEvent} (hstep : s.step a = some (t, e)) (hserial : s.Serial a)
    (ht : t.GetsFurther d) : s.GetsFurther d := by
  obtain ⟨more, u, es, hrun, hmore, hgone⟩ := ht
  exact ⟨a :: more, u, e :: es, run_cons_eq_some.mpr ⟨t, e, es, hstep, hrun, rfl⟩,
    forall_takes_cons hstep hserial hmore, hgone⟩

theorem gets_further_of_drained {s : Attributes} {d : Nat}
    (hpc : (s.devices d).pc = .undoing .inverse) (hdrained : s.Drained .inverse) :
    s.GetsFurther d := by
  have hstep : s.step (.probe d .ok) = some ((s.setFile .inverse false).put d
      { s.devices d with pc := undo .inverse }, .quiet) := by
    unfold step qeduProbe
    simp only [hpc, if_pos hdrained, Option.map_some]
  refine .of_step hstep ?_ ⟨[], _, _, rfl, forall_takes_nil, ?_⟩
  · intro hunbound
    rw [hpc] at hunbound
    cases hunbound
  · unfold put
    simp only [Function.update_self]
    exact nofun

theorem step_access {s : Attributes} {i : Nat} {c : Access} (hc : s.accesses[i]? = some c)
    (last : Bool) : s.step (.access i last) = s.touch i c last := by
  unfold step
  simp only [hc, Option.bind_some]

/-- A store that is rejected leaves once it has read the driver data. -/
theorem gets_further_of_edu {s : Attributes} {d d' i : Nat} {c : Access} {e : Option Nat}
    (hc : s.accesses[i]? = some c) (hpc : c.pc = .edu d' e) (hrejects : c.fn.rejects = true)
    (hnext : (s.withAccesses (s.accesses.eraseIdx i)).GetsFurther d) : s.GetsFurther d := by
  have hstep : s.step (.access i true) =
      some (s.withAccesses (s.accesses.eraseIdx i), .quiet) := by
    rw [step_access hc]
    unfold touch
    simp only [hpc, hrejects, if_true]
    rfl
  exact .of_step hstep trivial hnext

/-- A step in which it only reads. -/
theorem gets_further_of_read {s : Attributes} {d i : Nat} {c : Access} (pc : AccessPc)
    (hc : s.accesses[i]? = some c)
    (htouch : s.touch i c true =
      some (s.withAccesses (s.accesses.set i { c with pc := pc }), .quiet))
    (hrest : ∀ t : Attributes, t.accesses[i]? = some { c with pc := pc } →
      (t.withAccesses (t.accesses.eraseIdx i)).GetsFurther d → t.GetsFurther d)
    (hnext : (s.withAccesses (s.accesses.eraseIdx i)).GetsFurther d) : s.GetsFurther d := by
  have hlt := (List.getElem?_eq_some_iff.mp hc).1
  refine .of_step ((step_access hc true).trans htouch) trivial
    (hrest _ (List.getElem?_set_self hlt) ?_)
  show (s.withAccesses ((s.accesses.set i _).eraseIdx i)).GetsFurther d
  rw [List.eraseIdx_set_eq]
  exact hnext

theorem gets_further_of_dev {s : Attributes} {d d' i : Nat} {c : Access}
    (hc : s.accesses[i]? = some c) (hpc : c.pc = .dev (some d')) (hrejects : c.fn.rejects = true)
    (hnext : (s.withAccesses (s.accesses.eraseIdx i)).GetsFurther d) : s.GetsFurther d := by
  refine gets_further_of_read (.edu d' (s.devices d').drvdata) hc ?_
    (fun t ht => gets_further_of_edu ht rfl hrejects) hnext
  unfold touch
  simp only [hpc]
  rfl

theorem Owned.gets_further_of_rejected {s : Attributes} {d i : Nat} {c : Access} (hs : s.Owned d)
    (hc : s.accesses[i]? = some c) (hrejects : c.fn.rejects = true)
    (hnext : (s.withAccesses (s.accesses.eraseIdx i)).GetsFurther d) : s.GetsFurther d := by
  have hreads := (hs.inside c (List.mem_of_getElem? hc)).2
  cases hpc : c.pc with
  | edu d' e => exact gets_further_of_edu hc hpc hrejects hnext
  | dev p =>
      rw [hpc] at hreads
      cases hreads
      exact gets_further_of_dev hc hpc hrejects hnext
  | entered =>
      refine gets_further_of_read (.dev s.qeduDev) hc ?_
        (fun t ht => gets_further_of_dev ht (congrArg AccessPc.dev hs.dev) hrejects) hnext
      unfold Attributes.touch
      simp only [hpc]
      rfl

/-- The stores that are rejected leave one after the other, and then the probe removes the file. -/
theorem Owned.gets_further {s : Attributes} {d : Nat} (hs : s.Owned d)
    (hpc : (s.devices d).pc = .undoing .inverse)
    (hall : ∀ c ∈ s.accesses, c.attr = .inverse → c.fn.rejects = true) : s.GetsFurther d := by
  induction hn : s.accesses.length generalizing s with
  | zero =>
      refine gets_further_of_drained hpc fun c hc => ?_
      rw [List.eq_nil_of_length_eq_zero hn] at hc
      cases hc
  | succ n ih =>
      by_cases hdrained : s.Drained .inverse
      · exact gets_further_of_drained hpc hdrained
      · simp only [Drained, not_forall, not_not] at hdrained
        obtain ⟨c, hc, hattr⟩ := hdrained
        obtain ⟨i, hi⟩ := List.mem_iff_getElem?.mp hc
        have hlt := (List.getElem?_eq_some_iff.mp hi).1
        refine hs.gets_further_of_rejected hi (hall c hc hattr) (ih ?_ hpc ?_ ?_)
        · exact hs.with_accesses fun c' hc' => hs.inside c' (List.mem_of_mem_eraseIdx hc')
        · exact fun c' hc' => hall c' (List.mem_of_mem_eraseIdx hc')
        · show (s.accesses.eraseIdx i).length = n
          rw [List.length_eraseIdx_of_lt hlt, hn]
          rfl

/-- The probe of a device has failed to create `test_irq` and is about to remove `inverse`, holding
the lock. It gets further in some continuation exactly if everybody in the functions of `inverse`
is storing a number that is rejected: others spin on the lock, and the probe waits for them for
ever. -/
theorem failed_probe_ends_iff {actions : List AttributesAction} {s : Attributes} {d : Nat}
    {es : List AttributesEvent} (hrun : run step init actions = some (s, es))
    (hserial : ∀ t a e t', Takes step init actions t a e t' → t.Serial a)
    (hallowed : ∀ t a e t', Takes step init actions t a e t' → t.Allowed a)
    (hpc : (s.devices d).pc = .undoing .inverse) :
    s.GetsFurther d ↔ ∀ c ∈ s.accesses, c.attr = .inverse → c.fn.rejects = true := by
  have hserved : s.Served :=
    (visits_of_run hrun).invariant_of_guard (G := fun t a _ _ => t.Serial a ∧ t.Allowed a)
      (fun _ _ _ _ ht hG hstep => (ht.step hG.1 hG.2 hstep).1) served_init
      fun t a e t' htake => ⟨hserial t a e t' htake, hallowed t a e t' htake⟩
  constructor
  · rintro ⟨more, t, fs, hmore, hmoreSerial, hgone⟩ c hc hattr
    refine AttributeFunction.rejects_of_not_locks hattr ?_
    rw [← Bool.not_eq_true]
    intro hlocks
    have hstuck : s.Stuck d := ⟨hserved, hpc, c, hc, hattr, hlocks⟩
    have hend : t.Stuck d :=
      (visits_of_run hmore).invariant_of_guard (I := fun t => t.Stuck d)
        (G := fun t a _ _ => t.Serial a)
        (fun _ _ _ _ ht hG hstep => ht.step hG hstep) hstuck hmoreSerial
    exact hgone hend.pc
  · have hbusy : (s.devices d).pc.busy = true := by
      rw [hpc]
      rfl
    exact (hserved.owned hbusy).gets_further hpc

/-- A call of a function of `inverse` while the probe creates the files, and the last file cannot
be created. -/
def caught (fn : AttributeFunction) : List AttributesAction :=
  List.replicate 5 (.probe 0 .ok) ++ [.enter fn, .access 0 false, .probe 0 .fail]

/-- The text `100000000`. -/
def tooLarge : Page := ⟨49 :: List.replicate 8 48, by decide⟩

/-- With a reader the probe waits for ever, with a store of a large number it gets further. -/
theorem failed_probe_caught :
    (∃ s es, run step init (caught .inverseShow) = some (s, es) ∧
        (s.devices 0).pc = .undoing .inverse ∧ ¬ s.GetsFurther 0) ∧
      ∃ s es, run step init (caught (.inverseStore tooLarge 0)) = some (s, es) ∧
        (s.devices 0).pc = .undoing .inverse ∧ ¬ s.Drained .inverse ∧ s.GetsFurther 0 := by
  have hiff : ∀ {fn s es}, run step init (caught fn) = some (s, es) →
      admits step serialTwo init (caught fn) = true →
      admits step allowedTest init (caught fn) = true →
      (s.devices 0).pc = .undoing .inverse →
      (s.GetsFurther 0 ↔ ∀ c ∈ s.accesses, c.attr = .inverse → c.fn.rejects = true) := by
    intro fn s es hrun hserial hallowed hpc
    have hdevices : ∀ a ∈ caught fn, ∀ d, a.device = some d → d < 2 := by
      simp [caught, AttributesAction.device]
    exact failed_probe_ends_iff hrun (serial_of_serial_two hdevices hserial)
      (fun t a e t' htake => allowed_of_test (guard_of_admits hallowed t a e t' htake)) hpc
  constructor
  · have hrun : (run step init (caught .inverseShow)).map
        (fun r => ((r.1.devices 0).pc, r.1.accesses)) =
        some (.undoing .inverse, [⟨.inverseShow, .dev (some 0)⟩]) := rfl
    obtain ⟨⟨s, es⟩, hs, hsame⟩ := Option.map_eq_some_iff.mp hrun
    obtain ⟨hpc, haccesses⟩ := Prod.mk.inj hsame
    refine ⟨s, es, hs, hpc, fun hfurther => ?_⟩
    have hrejects := (hiff hs rfl rfl hpc).mp hfurther
    rw [haccesses] at hrejects
    cases hrejects _ (List.mem_singleton_self _) rfl
  · have hrun : (run step init (caught (.inverseStore tooLarge 0))).map
        (fun r => ((r.1.devices 0).pc, r.1.accesses)) =
        some (.undoing .inverse, [⟨.inverseStore tooLarge 0, .dev (some 0)⟩]) := rfl
    obtain ⟨⟨s, es⟩, hs, hsame⟩ := Option.map_eq_some_iff.mp hrun
    obtain ⟨hpc, haccesses⟩ := Prod.mk.inj hsame
    refine ⟨s, es, hs, hpc, fun hdrained => ?_, (hiff hs rfl rfl hpc).mpr ?_⟩
    · refine hdrained ⟨.inverseStore tooLarge 0, .dev (some 0)⟩ ?_ rfl
      rw [haccesses]
      exact List.mem_singleton_self _
    · rw [haccesses]
      intro c hc _
      cases List.mem_singleton.mp hc
      decide

end Attributes

end Ldd3.Edu
