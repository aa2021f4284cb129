import Ldd3.Scull.MemoryMachine

/-!
# Quantum bounds of the memory devices

The cache keeps the object size of module load, an ioctl changes `scull_quantum` at any time and
a trim copies it into the device. `quantum_bounds_iff` says exactly which runs keep every copy
inside the quantum objects: those in which no trim happens while `scull_quantum` exceeds the
object size. `quantum_bounds_broken` is a run outside of them.
-/

namespace Ldd3.Scull

variable {β : Type}

/-- The action is an open that runs the trim. -/
def MemAction.trims : MemAction β → Bool
  | openDev _ mode ch => mode == .wronly && !ch.intr
  | _ => false

/-- A read keeps the quantum length and copies below it. -/
theorem ReadOutcome.bounds {dev dev' : ScullDev β} {pos count : Nat} {ch : MemChoice β}
    {e : MemEffect β} (h : ReadOutcome dev pos count ch dev' e) :
    dev'.quantumLen = dev.quantumLen ∧
      ∀ off n, e.copy = some (off, n) → off + n ≤ dev.quantumLen := by
  cases h with
  | atEnd | oops | hole => exact ⟨rfl, by simp⟩
  | faulted nodes n hne _ _ hn =>
      refine ⟨rfl, ?_⟩
      rintro off m ⟨⟩
      have hlt := (position_lt hne pos).2
      omega
  | copied nodes quantum n _ hne _ _ _ hn =>
      refine ⟨rfl, ?_⟩
      rintro off m ⟨⟩
      have hlt := (position_lt hne pos).2
      omega

/-- A write keeps the quantum length and copies below it. -/
theorem WriteOutcome.bounds {stale : Nat → Nat → β} {dev dev' : ScullDev β} {pos : Nat}
    {data : List β} {ch : MemChoice β} {e : MemEffect β}
    (h : WriteOutcome stale dev pos data ch dev' e) :
    dev'.quantumLen = dev.quantumLen ∧
      ∀ off n, e.copy = some (off, n) → off + n ≤ dev.quantumLen := by
  cases h with
  | oops | noMemory => exact ⟨rfl, by simp⟩
  | faulted nodes quantum n hne _ _ hn | stored nodes quantum n hne _ _ hn =>
      refine ⟨rfl, ?_⟩
      rintro off m ⟨⟩
      have hlt := (position_lt hne pos).2
      omega

namespace MemState

/-- No device works with quanta longer than the objects of the cache. -/
def QuantumFits (s : MemState β) : Prop :=
  ∀ i, (s.devices i).quantumLen ≤ s.objSize

/-- A user copy stays inside its quantum object. -/
def CopyFits (s : MemState β) (e : MemEffect β) : Prop :=
  ∀ off n, e.copy = some (off, n) → off + n ≤ s.objSize

/-- A trim happens while `scull_quantum` is at most the object size. -/
def TrimFits (s : MemState β) (a : MemAction β) : Prop :=
  a.trims = true → s.tun.scullQuantum ≤ s.objSize

variable {stale : Nat → Nat → β} {s t : MemState β} {a : MemAction β} {e : MemEffect β}

/-- The number of devices and the object size stay what they were at module load. -/
theorem MemStep.fixed (h : MemStep stale s a e t) :
    t.objSize = s.objSize ∧ t.nrDevs = s.nrDevs := by
  cases h <;> exact ⟨rfl, rfl⟩

/-- What a step does to the quantum lengths: a trim sets one of them from `scull_quantum`, and
every other step keeps them and copies below the one it uses. -/
theorem MemStep.quantum_cases (h : MemStep stale s a e t) (hs : s.Shaped) :
    (a.trims = false ∧ (∀ i, (t.devices i).quantumLen = (s.devices i).quantumLen) ∧
        ∀ off n, e.copy = some (off, n) → ∃ i, off + n ≤ (s.devices i).quantumLen) ∨
      (a.trims = true ∧ e.copy = none ∧ ∃ i dev, dev.quantumLen = s.tun.scullQuantum ∧
        t.devices = Function.update s.devices i dev) := by
  have hupdate : ∀ {i : Nat} {dev : ScullDev β}, dev.quantumLen = (s.devices i).quantumLen →
      ∀ j, (Function.update s.devices i dev j).quantumLen = (s.devices j).quantumLen := by
    intro i dev hdev j
    by_cases heq : j = i
    · rw [heq, Function.update_self, hdev]
    · rw [Function.update_of_ne heq]
  cases h with
  | openInterrupted i ch hintr =>
      exact .inl ⟨by simp [MemAction.trims, hintr], fun _ => rfl, by simp⟩
  | opened i mode ch hmode => exact .inl ⟨by simp [MemAction.trims, hmode], fun _ => rfl, by simp⟩
  | trimmed i ch hintr =>
      exact .inr ⟨by simp [MemAction.trims, hintr], rfl, i, _, rfl, rfl⟩
  | readInterrupted | writeInterrupted | ioctl => exact .inl ⟨rfl, fun _ => rfl, by simp⟩
  | read i pos count ch dev next e _ _ _ hread =>
      obtain ⟨hlen, hcopy⟩ := (scull_read_outcome (hs i) hread).bounds
      exact .inl ⟨rfl, hupdate hlen, fun off n h => ⟨i, hcopy off n h⟩⟩
  | write i pos data ch dev next e _ _ _ hwrite =>
      obtain ⟨hlen, hcopy⟩ := (scull_write_outcome (hs i) hwrite).bounds
      exact .inl ⟨rfl, hupdate hlen, fun off n h => ⟨i, hcopy off n h⟩⟩

/-- The quantum bounds over whole runs. In a run of opens, reads, writes and ioctls from module
load, no device ever works with quanta longer than the objects of the cache, and every copy
stays inside its object, exactly when every trim of the run happens while `scull_quantum` is at
most the object size. -/
theorem quantum_bounds_iff (stale : Nat → Nat → β) (tun : Tunables) (nrDevs : Nat)
    (actions : List (MemAction β)) :
    ((∀ t, Machine.Visits (step stale) (init tun nrDevs) actions t → QuantumFits t) ∧
        ∀ t a e t', Machine.Takes (step stale) (init tun nrDevs) actions t a e t' →
          CopyFits t e) ↔
      ∀ t a e t', Machine.Takes (step stale) (init tun nrDevs) actions t a e t' →
        TrimFits t a := by
  refine Machine.holds_iff_guarded (I := fun t => t.Shaped ∧ QuantumFits t)
    (Q := fun t _ e _ => CopyFits t e) (S := fun _ _ _ _ => True) ?_ (fun t ht => ht.2) ?_ ?_
    ⟨shaped_init tun nrDevs, fun _ => le_rfl⟩ (fun _ _ _ _ _ => trivial)
  · rintro t a e t' ⟨hshaped, hfits⟩ - htrim hstep
    have hs := mem_step_sound hstep
    refine ⟨hs.shaped hshaped, ?_⟩
    intro i
    rw [hs.fixed.1]
    rcases hs.quantum_cases hshaped with ⟨-, hsame, -⟩ | ⟨htrims, -, j, dev, hdev, hupdate⟩
    · rw [hsame i]
      exact hfits i
    · rw [hupdate]
      exact forall_update (P := fun dev => dev.quantumLen ≤ t.objSize) hfits
        (hdev ▸ htrim htrims) i
  · rintro t a e t' ⟨hshaped, hfits⟩ - - hstep off n hcopy
    rcases (mem_step_sound hstep).quantum_cases hshaped with ⟨-, -, hbound⟩ | ⟨-, hnone, -⟩
    · obtain ⟨i, hi⟩ := hbound off n hcopy
      exact hi.trans (hfits i)
    · simp [hnone] at hcopy
  · rintro t a e t' ⟨hshaped, -⟩ - hstep hfits - htrims
    -- the device that was trimmed has the quantum length of the tunable
    have hs := mem_step_sound hstep
    rcases hs.quantum_cases hshaped with ⟨hfalse, -⟩ | ⟨-, -, i, dev, hdev, hupdate⟩
    · simp [hfalse] at htrims
    · have hi := hfits i
      rw [hupdate, Function.update_self, hdev, hs.fixed.1] at hi
      exact hi

/-- Raise `scull_quantum` from four to eight, open a device write-only and write five bytes. -/
def overrun : List (MemAction UInt8) :=
  [.ioctl IoctlCmd.ioctquantum.number 8 ⟨fun _ _ => true, true, none, false⟩,
    .openDev 0 .wronly {}, .write 0 0 [1, 2, 3, 4, 5] {}]

/-- The write copies five bytes into an object of four. -/
theorem quantum_bounds_broken :
    ¬ ∀ (stale : Nat → Nat → UInt8) (tun : Tunables) (nrDevs : Nat)
        (actions : List (MemAction UInt8)),
      (∀ t, Machine.Visits (step stale) (init tun nrDevs) actions t → QuantumFits t) ∧
        ∀ t a e t', Machine.Takes (step stale) (init tun nrDevs) actions t a e t' →
          CopyFits t e := by
  intro h
  obtain ⟨-, hcopy⟩ := h (fun _ _ => 0) ⟨4, 2, 4000⟩ 1 overrun
  have hwrite := hcopy _ _ _ _ (.later rfl (.later rfl (.here _ rfl))) 0 5 rfl
  exact absurd hwrite (by decide)

end MemState

end Ldd3.Scull
