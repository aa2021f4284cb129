import Ldd3.Scull.MemoryMap

/-!
# Position arithmetic of the memory devices

`__scull_follow` divides a file position by `quantum_len * qset_len` and by `quantum_len`. A device
gets both lengths from the tunables, at module load and at every trim, and nobody looks at their
values. `FollowDefined` says what the divisions should yield, and `position_defined_iff` which runs
keep them so: those in which no trim happens while a tunable is zero or their product does not fit
in 64 bits.
-/

namespace Ldd3.Scull

variable {β : Type}

/-- A geometry in which every position has a node, a slot and an offset: neither length is zero, and
the product fits in 64 bits. -/
structure Sized (quantum qset : Nat) : Prop where
  quantum_pos : 1 ≤ quantum
  qset_pos : 1 ≤ qset
  product_lt : quantum * qset < 2 ^ 64

/-- Such a geometry is one for objects of its own quantum length. -/
theorem Sized.geometry {quantum qset : Nat} (h : Sized quantum qset) :
    Geometry quantum quantum qset :=
  ⟨h.quantum_pos, le_rfl, h.qset_pos, h.product_lt⟩

variable {dev dev' : ScullDev β} {pos : Nat} {e : MemEffect β}

/-- The product does not wrap. -/
theorem Sized.total_len (h : Sized dev.quantumLen dev.qsetLen) :
    dev.totalLen = dev.quantumLen * dev.qsetLen :=
  Nat.mod_eq_of_lt h.product_lt

/-- The divisor is not zero. -/
theorem Sized.total_len_pos (h : Sized dev.quantumLen dev.qsetLen) : 0 < dev.totalLen := by
  rw [h.total_len]
  exact Nat.mul_pos h.quantum_pos h.qset_pos

/-- The divisions of `__scull_follow` at `pos` are defined and yield the parts of `pos`. -/
structure FollowDefined (dev : ScullDev β) (pos : Nat) : Prop where
  total_ne : dev.totalLen ≠ 0
  quantum_ne : dev.quantumLen ≠ 0
  product_lt : dev.quantumLen * dev.qsetLen < 2 ^ 64
  quantumP_lt : (dev.position pos).quantumP < dev.qsetLen
  offsetP_lt : (dev.position pos).offsetP < dev.quantumLen
  parts : (dev.position pos).qsetP * (dev.quantumLen * dev.qsetLen) +
    (dev.position pos).quantumP * dev.quantumLen + (dev.position pos).offsetP = pos

/-- The parts of a position add up to it. -/
theorem Sized.parts (h : Sized dev.quantumLen dev.qsetLen) (pos : Nat) :
    (dev.position pos).qsetP * (dev.quantumLen * dev.qsetLen) +
      (dev.position pos).quantumP * dev.quantumLen + (dev.position pos).offsetP = pos := by
  have hpos : pos = dev.start (dev.position pos).qsetP (dev.position pos).quantumP +
      (dev.position pos).offsetP :=
    ((position_eq_iff (Nat.ne_of_gt h.total_len_pos) pos _ _ _).mp rfl).2
  rw [← h.total_len]
  exact hpos.symm

/-- Whether the divisions are defined does not depend on the position. -/
theorem follow_defined_iff (dev : ScullDev β) (pos : Nat) :
    FollowDefined dev pos ↔ Sized dev.quantumLen dev.qsetLen := by
  constructor
  · intro h
    have hquantum := h.quantum_ne
    have hslot := h.quantumP_lt
    exact ⟨by omega, by omega, h.product_lt⟩
  · intro h
    have hquantum := h.quantum_pos
    have htotal := Nat.ne_of_gt h.total_len_pos
    obtain ⟨hslot, hoff⟩ := position_lt htotal pos
    exact ⟨htotal, by omega, h.product_lt, hslot, hoff, h.parts pos⟩

/-- A read keeps the geometry, and is killed only by a division by zero. -/
theorem ReadOutcome.geometry {count : Nat} {ch : MemChoice β}
    (h : ReadOutcome dev pos count ch dev' e) :
    dev'.quantumLen = dev.quantumLen ∧ dev'.qsetLen = dev.qsetLen ∧
      (e.ret = .oops → dev.totalLen = 0) := by
  cases h with
  | oops hzero => exact ⟨rfl, rfl, fun _ => hzero⟩
  | atEnd | hole | faulted | copied => exact ⟨rfl, rfl, fun hoops => by cases hoops⟩

/-- A write keeps the geometry, and is killed only by a division by zero. -/
theorem WriteOutcome.geometry {stale : Nat → Nat → β} {data : List β} {ch : MemChoice β}
    (h : WriteOutcome stale dev pos data ch dev' e) :
    dev'.quantumLen = dev.quantumLen ∧ dev'.qsetLen = dev.qsetLen ∧
      (e.ret = .oops → dev.totalLen = 0) := by
  cases h with
  | oops hzero => exact ⟨rfl, rfl, fun _ => hzero⟩
  | noMemory | faulted | stored => exact ⟨rfl, rfl, fun hoops => by cases hoops⟩

namespace MemState

variable {stale : Nat → Nat → β} {s t : MemState β} {a : MemAction β}

/-- Device `i` has a geometry in which every position is defined. -/
def DevSized (s : MemState β) (i : Nat) : Prop :=
  Sized (s.devices i).quantumLen (s.devices i).qsetLen

/-- A trim happens while the tunables are such a geometry. -/
def TrimSized (s : MemState β) (a : MemAction β) : Prop :=
  a.trims = true → Sized s.tun.scullQuantum s.tun.scullQset

/-- What a step does to the geometries: a trim takes that of one device from the tunables, and every
other step keeps them all. A call is killed only on a device whose geometry is not sized. -/
theorem MemStep.geometry_cases (h : MemStep stale s a e t) (hs : s.Shaped) :
    (a.trims = false ∧ (∀ i, t.DevSized i ↔ s.DevSized i) ∧
        (e.ret = .oops → ∃ i < s.nrDevs, ¬ s.DevSized i)) ∨
      (a.trims = true ∧ e.ret ≠ .oops ∧ ∃ i < s.nrDevs,
        (t.DevSized i ↔ Sized s.tun.scullQuantum s.tun.scullQset) ∧
        ∀ j, j ≠ i → (t.DevSized j ↔ s.DevSized j)) := by
  have hupdate : ∀ {i next : Nat} {dev : ScullDev β}, i < s.nrDevs →
      dev.quantumLen = (s.devices i).quantumLen ∧ dev.qsetLen = (s.devices i).qsetLen ∧
        (e.ret = .oops → (s.devices i).totalLen = 0) →
      (∀ j, DevSized { s with devices := Function.update s.devices i dev, next := next } j ↔
        s.DevSized j) ∧ (e.ret = .oops → ∃ i < s.nrDevs, ¬ s.DevSized i) := by
    rintro i next dev hi ⟨hquantum, hqset, hoops⟩
    refine ⟨fun j => ?_, fun hret => ⟨i, hi, fun hsized => ?_⟩⟩
    · by_cases heq : j = i
      · subst heq
        simp [DevSized, hquantum, hqset]
      · simp [DevSized, heq]
    · exact Nat.ne_of_gt hsized.total_len_pos (hoops hret)
  cases h with
  | openInterrupted i ch hintr =>
      exact .inl ⟨by simp [MemAction.trims, hintr], fun _ => Iff.rfl, fun hret => by cases hret⟩
  | opened i mode ch hmode =>
      exact .inl ⟨by simp [MemAction.trims, hmode], fun _ => Iff.rfl, fun hret => by cases hret⟩
  | readInterrupted | writeInterrupted | ioctl =>
      exact .inl ⟨rfl, fun _ => Iff.rfl, fun hret => by cases hret⟩
  | trimmed i ch hintr hi =>
      refine .inr ⟨by simp [MemAction.trims, hintr], (fun hret => by cases hret), i, hi, ?_, ?_⟩
      · simp [DevSized, scullTrim]
      · intro j hj
        simp [DevSized, hj]
  | read i pos count ch dev next e _ hi _ hread =>
      exact .inl ⟨rfl, hupdate hi (scull_read_outcome (hs i) hread).geometry⟩
  | write i pos data ch dev next e _ hi _ hwrite =>
      exact .inl ⟨rfl, hupdate hi (scull_write_outcome (hs i) hwrite).geometry⟩

/-- The position arithmetic over whole runs. In a run of opens, reads, writes and ioctls from module
load, every division of `__scull_follow`, on any device and at any position, is defined and yields
the parts of the position in every state, and no call is killed, exactly when the module was loaded
with a sized geometry and every trim of the run happens while the tunables are one. -/
theorem position_defined_iff (stale : Nat → Nat → β) (tun : Tunables) (nrDevs : Nat)
    (actions : List (MemAction β)) :
    ((∀ t, Machine.Visits (step stale) (init tun nrDevs) actions t →
          ∀ i < nrDevs, ∀ pos, FollowDefined (t.devices i) pos) ∧
        ∀ t a e t', Machine.Takes (step stale) (init tun nrDevs) actions t a e t' →
          e.ret ≠ .oops) ↔
      (0 < nrDevs → Sized tun.scullQuantum tun.scullQset) ∧
        ∀ t a e t', Machine.Takes (step stale) (init tun nrDevs) actions t a e t' →
          t.TrimSized a := by
  -- with a bad load the first state already fails, otherwise all devices start out sized
  by_cases hload : 0 < nrDevs → Sized tun.scullQuantum tun.scullQset
  · rw [and_iff_right hload]
    simp only [follow_defined_iff, forall_const]
    refine Machine.holds_iff_guarded
      (I := fun t : MemState β => t.Shaped ∧ t.nrDevs = nrDevs ∧ ∀ i < nrDevs, t.DevSized i)
      (P := fun t : MemState β => ∀ i < nrDevs, t.DevSized i)
      (Q := fun _ _ (e : MemEffect β) _ => e.ret ≠ .oops) (S := fun _ _ _ _ => True)
      ?_ (fun t ht => ht.2.2) ?_ ?_
      ⟨shaped_init tun nrDevs, rfl, fun i hi => hload (by omega)⟩ (fun _ _ _ _ _ => trivial)
    · rintro t a e t' ⟨hshaped, rfl, hsized⟩ - htrim hstep
      have hs := mem_step_sound hstep
      refine ⟨hs.shaped hshaped, hs.fixed.2, fun i hi => ?_⟩
      rcases hs.geometry_cases hshaped with ⟨-, hsame, -⟩ | ⟨htrims, -, j, -, hnew, hother⟩
      · exact (hsame i).mpr (hsized i hi)
      · by_cases heq : i = j
        · exact heq ▸ hnew.mpr (htrim htrims)
        · exact (hother i heq).mpr (hsized i hi)
    · rintro t a e t' ⟨hshaped, rfl, hsized⟩ - - hstep hoops
      rcases (mem_step_sound hstep).geometry_cases hshaped with
        ⟨-, -, hbad⟩ | ⟨-, hret, -⟩
      · obtain ⟨i, hi, hnot⟩ := hbad hoops
        exact hnot (hsized i hi)
      · exact hret hoops
    · rintro t a e t' ⟨hshaped, rfl, -⟩ - hstep hsized - htrims
      rcases (mem_step_sound hstep).geometry_cases hshaped with
        ⟨hfalse, -⟩ | ⟨-, -, i, hi, hnew, -⟩
      · simp [hfalse] at htrims
      · exact hnew.mp (hsized i hi)
  · refine iff_of_false ?_ (fun h => hload h.1)
    rintro ⟨hdefined, -⟩
    refine hload fun hpos => ?_
    exact (follow_defined_iff _ 0).mp (hdefined _ (.here _ _) 0 hpos 0)

/-- Set the quantum from an address that faults, open a device write-only and write a byte. -/
def zeroQuantum : List (MemAction UInt8) :=
  [.ioctl IoctlCmd.iocsquantum.number 0 ⟨fun _ _ => true, true, none, true⟩,
    .openDev 0 .wronly {}, .write 0 0 [1] {}]

/-- The write divides by zero. -/
theorem position_undefined :
    ¬ ∀ (stale : Nat → Nat → UInt8) (tun : Tunables) (nrDevs : Nat)
        (actions : List (MemAction UInt8)), 1 ≤ tun.scullQuantum → 1 ≤ tun.scullQset →
      (∀ t, Machine.Visits (step stale) (init tun nrDevs) actions t →
          ∀ i < nrDevs, ∀ pos, FollowDefined (t.devices i) pos) ∧
        ∀ t a e t', Machine.Takes (step stale) (init tun nrDevs) actions t a e t' →
          e.ret ≠ .oops := by
  intro h
  obtain ⟨-, hret⟩ := h (fun _ _ => 0) ⟨4000, 1000, 4000⟩ 1 zeroQuantum (by decide) (by decide)
  exact hret _ _ _ _ (.later rfl (.later rfl (.here _ rfl))) rfl

end MemState

end Ldd3.Scull
