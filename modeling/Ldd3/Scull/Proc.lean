import Ldd3.Scull.MemoryMachine

/-!
# The dump of the memory devices

`scull_seq_show` prints a device into `/proc/scullmem`. Of the last node it prints the bytes of
every quantum, and `__scull_print_ascii` takes the number of these bytes from the length of the
whole device, with a cap of 500. `Dump` is what gets printed, together with the bytes that were read
for it. `dump_inside_iff` says which devices of which runs have a dump that reads bytes of the
device only.
-/

namespace Ldd3.Scull

/-- What one `seq_printf` of the dump prints; pointers are identifiers of objects. -/
inductive SeqPiece where
  /-- `"\ndevice %zu: qset %zu, q %zu, sz %zu\n"` -/
  | device (i qsetLen quantumLen len : Nat)
  /-- `"  item at %p, qset at %p\n"` -/
  | item (qset : Nat) (data : Option Nat)
  /-- `"    %4zd: %8p\n"` -/
  | slot (i quantum : Nat)
  /-- `"%c"` -/
  | char (c : UInt8)
  /-- `"\n"` -/
  | newline
  deriving DecidableEq, Repr

/-- What a call of `scull_seq_show` has printed so far, and the bytes of quanta it has read. -/
structure Dump where
  out : List SeqPiece
  reads : List ScullFollow
  deriving DecidableEq, Repr

/-- `seq_printf`. -/
def Dump.print (d : Dump) (piece : SeqPiece) : Dump := { d with out := d.out ++ [piece] }

/-- `*buf`, with `buf` at the given offset of a quantum. -/
def Dump.read (d : Dump) (ref : ScullFollow) : Dump := { d with reads := d.reads ++ [ref] }

/-- `iscntrl`. -/
def iscntrl (c : UInt8) : Bool := c < 32 || c == 127

/-- One pass of the loop of `__scull_print_ascii`, over the quantum in a slot of a node. -/
def printByte (qsetP quantumP : Nat) (quantum : Quantum UInt8) (i : Nat) (d : Dump) : Dump :=
  let c := quantum.bytes i
  let d := (d.read ⟨qsetP, quantumP, i⟩).print (.char (if iscntrl c then '.'.toUInt8 else c))
  if (i + 1) % 64 = 0 then d.print .newline else d

/-- `__scull_print_ascii`. -/
def scullPrintAscii (qsetP quantumP : Nat) (quantum : Quantum UInt8) (dataLen : Nat) (d : Dump) :
    Dump :=
  let maxLoop := min dataLen 500
  (forLoop (printByte qsetP quantumP quantum) maxLoop d).print .newline

/-- One pass of the loop of `scull_seq_show` over the pointers of a node. -/
def showSlot (dev : ScullDev UInt8) (qsetP : Nat) (array : QuantumArray UInt8) (i : Nat)
    (d : Dump) : Dump :=
  match array.slots[i]?.join with
  | some quantum => scullPrintAscii qsetP i quantum dev.len (d.print (.slot i quantum.id))
  | none => d

/-- One pass of the loop of `scull_seq_show` over the nodes; only of the last one the quanta are
printed. -/
def showQset (dev : ScullDev UInt8) (qsetP : Nat) (qset : ScullQset UInt8) (last : Bool)
    (d : Dump) : Dump :=
  let d := d.print (.item qset.id (qset.data.map QuantumArray.id))
  match qset.data with
  | some array => if last then forLoop (showSlot dev qsetP array) dev.qsetLen d else d
  | none => d

/-- The loop of `scull_seq_show` over the nodes, from node `qsetP` on. -/
def showNodes (dev : ScullDev UInt8) : Nat → List (ScullQset UInt8) → Dump → Dump
  | _, [], d => d
  | qsetP, qset :: rest, d =>
      showNodes dev (qsetP + 1) rest (showQset dev qsetP qset rest.isEmpty d)

/-- `scull_seq_show` of device `i`, with the lock held. -/
def scullSeqShow (i : Nat) (dev : ScullDev UInt8) : Dump :=
  showNodes dev 0 dev.qset
    ⟨[.device i dev.qsetLen dev.quantumLen dev.len], []⟩

/-- `scull_seq_show` as a call: a signal can interrupt it, and it waits forever for a lock whose
owner was killed. -/
def MemState.seqShow (s : MemState UInt8) (i : Nat) (intr : Bool) : Option (Except Errno Dump) :=
  if intr then some (.error .ERESTARTSYS)
  else if (s.devices i).stuck then none
  else some (.ok (scullSeqShow i (s.devices i)))

section Reads

variable {d : Dump} {ref : ScullFollow}

/-- A loop reads what its passes read. -/
theorem mem_reads_for_loop {body : Nat → Dump → Dump} {P : Nat → Prop}
    (hbody : ∀ i d, ref ∈ (body i d).reads ↔ ref ∈ d.reads ∨ P i) (n : Nat) (d : Dump) :
    ref ∈ (forLoop body n d).reads ↔ ref ∈ d.reads ∨ ∃ i < n, P i := by
  induction n with
  | zero => simp [forLoop]
  | succ n ih =>
      rw [forLoop, hbody, ih, or_assoc]
      refine or_congr_right ⟨?_, ?_⟩
      · rintro (⟨i, hi, hP⟩ | hP)
        · exact ⟨i, Nat.lt_succ_of_lt hi, hP⟩
        · exact ⟨n, Nat.lt_succ_self n, hP⟩
      · rintro ⟨i, hi, hP⟩
        rcases Nat.lt_succ_iff_lt_or_eq.mp hi with hlt | rfl
        · exact .inl ⟨i, hlt, hP⟩
        · exact .inr hP

/-- A pass over a quantum reads its byte. -/
theorem mem_reads_print_byte (qsetP quantumP : Nat) (quantum : Quantum UInt8) (i : Nat) (d : Dump) :
    ref ∈ (printByte qsetP quantumP quantum i d).reads ↔
      ref ∈ d.reads ∨ ref = ⟨qsetP, quantumP, i⟩ := by
  have hreads : (printByte qsetP quantumP quantum i d).reads =
      d.reads ++ [⟨qsetP, quantumP, i⟩] := by
    unfold printByte
    split <;> rfl
  rw [hreads, List.mem_append, List.mem_singleton]

/-- The dump of a quantum reads as many bytes as the device has, and 500 at most. -/
theorem mem_reads_scull_print_ascii (qsetP quantumP : Nat) (quantum : Quantum UInt8) (dataLen : Nat)
    (d : Dump) :
    ref ∈ (scullPrintAscii qsetP quantumP quantum dataLen d).reads ↔
      ref ∈ d.reads ∨ ∃ i < min dataLen 500, ref = ⟨qsetP, quantumP, i⟩ :=
  mem_reads_for_loop (mem_reads_print_byte qsetP quantumP quantum) _ d

variable {dev : ScullDev UInt8}

/-- A pass over the pointers of a node dumps the quantum, if there is one. -/
theorem mem_reads_show_slot (qsetP : Nat) (array : QuantumArray UInt8) (i : Nat) (d : Dump) :
    ref ∈ (showSlot dev qsetP array i d).reads ↔
      ref ∈ d.reads ∨ (array.slots[i]?.join).isSome ∧
        ∃ off < min dev.len 500, ref = ⟨qsetP, i, off⟩ := by
  unfold showSlot
  cases array.slots[i]?.join with
  | none => simp
  | some quantum =>
      show ref ∈ (scullPrintAscii qsetP i quantum dev.len _).reads ↔ _
      rw [mem_reads_scull_print_ascii]
      simp [Dump.print]

/-- A pass over the nodes reads nothing, unless it is the last one. -/
theorem mem_reads_show_qset (qsetP : Nat) (qset : ScullQset UInt8) (last : Bool) (d : Dump) :
    ref ∈ (showQset dev qsetP qset last d).reads ↔
      ref ∈ d.reads ∨ last = true ∧ ∃ i < dev.qsetLen, (slotAt [qset] 0 i).isSome ∧
        ∃ off < min dev.len 500, ref = ⟨qsetP, i, off⟩ := by
  unfold showQset
  cases hdata : qset.data with
  | none => simp [slotAt, hdata, Dump.print]
  | some array =>
      cases last with
      | false => simp [Dump.print]
      | true =>
          simp only [if_true, mem_reads_for_loop (mem_reads_show_slot qsetP array)]
          simp [slotAt, hdata, Dump.print]

/-- The loop over the nodes reads bytes of the last node only. -/
theorem mem_reads_show_nodes (qsetP : Nat) (nodes : List (ScullQset UInt8)) (d : Dump) :
    ref ∈ (showNodes dev qsetP nodes d).reads ↔
      ref ∈ d.reads ∨ ∃ i < dev.qsetLen, (slotAt nodes (nodes.length - 1) i).isSome ∧
        ∃ off < min dev.len 500, ref = ⟨qsetP + (nodes.length - 1), i, off⟩ := by
  induction nodes generalizing qsetP d with
  | nil => simp [showNodes, slotAt]
  | cons node rest ih =>
      rw [showNodes, ih, mem_reads_show_qset]
      cases rest with
      | nil => simp [slotAt]
      | cons next rest =>
          have hlen : qsetP + 1 + ((next :: rest).length - 1) =
              qsetP + ((node :: next :: rest).length - 1) := by
            simp only [List.length_cons]
            omega
          have hslots : ∀ i, slotAt (node :: next :: rest) ((node :: next :: rest).length - 1) i =
              slotAt (next :: rest) ((next :: rest).length - 1) i := fun i => rfl
          simp only [hlen, hslots, List.isEmpty_cons, Bool.false_eq_true, false_and, or_false]

/-- What the dump of a device reads. -/
theorem mem_reads_scull_seq_show (i : Nat) :
    ref ∈ (scullSeqShow i dev).reads ↔
      ∃ j < dev.qsetLen, (slotAt dev.qset (dev.qset.length - 1) j).isSome ∧
        ∃ off < min dev.len 500, ref = ⟨dev.qset.length - 1, j, off⟩ := by
  rw [scullSeqShow, mem_reads_show_nodes, Nat.zero_add]
  simp

end Reads

section Inside

variable {β : Type} {dev dev' : ScullDev β}

/-- A byte of a quantum is one of the device: it lies in the quantum and stands for an offset below
`len`. -/
def ScullDev.Inside (dev : ScullDev β) (ref : ScullFollow) : Prop :=
  ref.offsetP < dev.quantumLen ∧ ∃ x < dev.len, dev.position x = ref

/-- The first `n` bytes of a quantum are bytes of the device. -/
theorem forall_inside_iff (hne : dev.totalLen ≠ 0) (i j n : Nat) :
    (∀ off < n, dev.Inside ⟨i, j, off⟩) ↔
      n = 0 ∨ n ≤ dev.room j ∧ dev.start i j + n ≤ dev.len := by
  have hinside : ∀ off, dev.Inside ⟨i, j, off⟩ ↔
      off < dev.room j ∧ dev.start i j + off < dev.len := by
    intro off
    simp only [ScullDev.Inside, position_eq_iff hne]
    constructor
    · rintro ⟨-, x, hx, hroom, rfl⟩
      exact ⟨hroom, hx⟩
    · rintro ⟨hroom, hlen⟩
      exact ⟨hroom.trans_le (min_le_left _ _), _, hlen, hroom, rfl⟩
  simp only [hinside]
  constructor
  · intro h
    rcases Nat.eq_zero_or_pos n with hzero | hpos
    · exact .inl hzero
    · -- the last of the bytes is the one that matters
      have hlast := h (n - 1) (by omega)
      exact .inr (by omega)
  · rintro (rfl | ⟨hroom, hlen⟩) off hoff
    · exact absurd hoff (Nat.not_lt_zero _)
    · omega

/-- Only the first quantum of the first node begins at offset zero. -/
theorem start_eq_zero_iff (hne : dev.totalLen ≠ 0) (i j : Nat) :
    dev.start i j = 0 ↔ i = 0 ∧ j = 0 := by
  have hquantum : dev.quantumLen ≠ 0 := Nat.ne_zero_of_lt (position_lt hne 0).2
  rw [ScullDev.start, Nat.add_eq_zero_iff, Nat.mul_eq_zero, Nat.mul_eq_zero, or_iff_left hne,
    or_iff_left hquantum]

/-- The dump of a quantum has the bytes it prints: the device is empty, or short and all in this
quantum, or the quantum has 500 bytes of data. -/
def ScullDev.QuantumDumpFits (dev : ScullDev β) (i j : Nat) : Prop :=
  dev.len = 0 ∨ (i = 0 ∧ j = 0 ∧ dev.len ≤ 500 ∧ dev.len ≤ dev.room 0) ∨
    (500 ≤ dev.room j ∧ dev.start i j + 500 ≤ dev.len)

instance (dev : ScullDev β) (i j : Nat) : Decidable (dev.QuantumDumpFits i j) :=
  inferInstanceAs (Decidable (_ ∨ _))

/-- The bytes `__scull_print_ascii` prints of a quantum are bytes of the device. -/
theorem quantum_dump_iff (hne : dev.totalLen ≠ 0) (i j : Nat) :
    (∀ off < min dev.len 500, dev.Inside ⟨i, j, off⟩) ↔ dev.QuantumDumpFits i j := by
  have hstart := start_eq_zero_iff hne i j
  rw [forall_inside_iff hne, ScullDev.QuantumDumpFits]
  constructor
  · rintro (hzero | ⟨hroom, hlen⟩)
    · exact .inl (by omega)
    · rcases Nat.lt_or_ge 500 dev.len with hlong | hshort
      · exact .inr (.inr (by omega))
      · -- all of the device is printed, so the quantum begins at offset zero
        rw [Nat.min_eq_left hshort] at hroom hlen
        obtain ⟨rfl, rfl⟩ := hstart.mp (by omega)
        exact .inr (.inl ⟨rfl, rfl, hshort, hroom⟩)
  · rintro (hzero | ⟨rfl, rfl, hshort, hroom⟩ | ⟨hroom, hlen⟩)
    · exact .inl (by omega)
    · rw [Nat.min_eq_left hshort, hstart.mpr ⟨rfl, rfl⟩]
      exact .inr ⟨hroom, by omega⟩
    · rw [Nat.min_eq_right (by omega)]
      exact .inr ⟨hroom, hlen⟩

/-- The dump of a device has the bytes it prints of every quantum of the last node. -/
def ScullDev.DumpFits (dev : ScullDev β) : Prop :=
  ∀ j < dev.qsetLen, (slotAt dev.qset (dev.qset.length - 1) j).isSome →
    dev.QuantumDumpFits (dev.qset.length - 1) j

instance (dev : ScullDev β) : Decidable dev.DumpFits :=
  inferInstanceAs (Decidable (∀ j < _, _ → _))

/-- A device has quanta only if the division in `__scull_follow` is defined. -/
def ScullDev.Addressed (dev : ScullDev β) : Prop :=
  ∀ i j, (slotAt dev.qset i j).isSome → dev.totalLen ≠ 0

/-- Empty nodes do not matter. -/
theorem ScullDev.Addressed.same_slots {nodes : List (ScullQset β)} {qsetLen : Nat}
    (h : dev.Addressed) (hsame : SameSlots dev.qset nodes qsetLen) :
    ({ dev with qset := nodes } : ScullDev β).Addressed := by
  intro i j hsome
  exact h i j (by rwa [hsame.slots] at hsome)

/-- A read finds its way or allocates nothing. -/
theorem ReadOutcome.addressed {pos count : Nat} {ch : MemChoice β} {e : MemEffect β}
    (h : ReadOutcome dev pos count ch dev' e) (hdev : dev.Addressed) : dev'.Addressed := by
  cases h with
  | atEnd | oops => exact hdev
  | hole nodes _ _ hsame => exact hdev.same_slots hsame
  | faulted nodes n _ hsame => exact hdev.same_slots hsame
  | copied nodes quantum n _ _ hsame => exact hdev.same_slots hsame

/-- A write takes a quantum only after the division. -/
theorem WriteOutcome.addressed {stale : Nat → Nat → β} {pos : Nat} {data : List β}
    {ch : MemChoice β} {e : MemEffect β} (h : WriteOutcome stale dev pos data ch dev' e)
    (hdev : dev.Addressed) : dev'.Addressed := by
  cases h with
  | oops => exact hdev
  | noMemory nodes hsame => exact hdev.same_slots hsame
  | faulted nodes quantum n hne => exact fun _ _ _ => hne
  | stored nodes quantum n hne => exact fun _ _ _ => hne

end Inside

namespace MemState

/-- The devices of a run have quanta only where the division is defined. -/
theorem addressed_of_visits {β : Type} {stale : Nat → Nat → β} {tun : Tunables} {nrDevs : Nat}
    {actions : List (MemAction β)} {t : MemState β}
    (ht : Machine.Visits (step stale) (init tun nrDevs) actions t) (i : Nat) :
    (t.devices i).Addressed := by
  have hempty : ∀ dev : ScullDev β, dev.qset = [] → dev.Addressed := by
    intro dev hnil i j hsome
    rw [hnil] at hsome
    cases hsome
  have hinv : t.Shaped ∧ ∀ i, (t.devices i).Addressed := by
    refine ht.invariant (I := fun t => t.Shaped ∧ ∀ i, (t.devices i).Addressed) ?_
      ⟨shaped_init tun nrDevs, fun _ => hempty _ rfl⟩
    intro s a e u hs hstep
    have hsound := mem_step_sound hstep
    refine ⟨hsound.shaped hs.1, hsound.forall_devices hs.1 ?_ ?_ ?_ hs.2⟩
    · exact fun tun dev _ => hempty _ rfl
    · exact fun _ _ _ _ _ _ hread hdev => hread.addressed hdev
    · exact fun _ _ _ _ _ _ _ hwrite hdev => hwrite.addressed hdev
  exact hinv.2 i

/-- The dump of a device in any state of any run from module load, whatever the geometry: all bytes
it reads lie in their quantum and stand for an offset below `len` if and only if every quantum of
the last node has the bytes that are printed of it. -/
theorem dump_inside_iff (stale : Nat → Nat → UInt8) (tun : Tunables) (nrDevs : Nat)
    (actions : List (MemAction UInt8)) {t : MemState UInt8}
    (ht : Machine.Visits (step stale) (init tun nrDevs) actions t) (i : Nat) (intr : Bool)
    {d : Dump} (hshow : t.seqShow i intr = some (.ok d)) :
    (∀ ref ∈ d.reads, (t.devices i).Inside ref) ↔ (t.devices i).DumpFits := by
  have haddressed := addressed_of_visits ht i
  obtain rfl : d = scullSeqShow i (t.devices i) := by
    unfold seqShow at hshow
    split at hshow
    · cases hshow
    · split at hshow
      · cases hshow
      · cases hshow
        rfl
  constructor
  · intro hinside j hj hsome
    refine (quantum_dump_iff (haddressed _ _ hsome) _ j).mp fun off hoff => ?_
    exact hinside _ ((mem_reads_scull_seq_show i).mpr ⟨j, hj, hsome, off, hoff, rfl⟩)
  · intro hfits ref href
    obtain ⟨j, hj, hsome, off, hoff, rfl⟩ := (mem_reads_scull_seq_show i).mp href
    exact (quantum_dump_iff (haddressed _ _ hsome) _ j).mpr (hfits j hj hsome) off hoff

/-- Three bytes in the first quantum. -/
def threeBytes : List (MemAction UInt8) := [.write 0 0 [97, 98, 99] {}]

/-- The dump reads these three bytes. -/
theorem dump_inside_three_bytes :
    ∃ t d, Machine.Visits (step fun _ _ => 0) (init ⟨4, 2, 4000⟩ 1) threeBytes t ∧
      t.seqShow 0 false = some (.ok d) ∧
      d.reads = [⟨0, 0, 0⟩, ⟨0, 0, 1⟩, ⟨0, 0, 2⟩] ∧
      ∀ ref ∈ d.reads, (t.devices 0).Inside ref := by
  refine ⟨_, _, .later rfl (.here _ _), rfl, rfl, ?_⟩
  exact (dump_inside_iff (fun _ _ => 0) ⟨4, 2, 4000⟩ 1 threeBytes (.later rfl (.here _ _)) 0
    false rfl).mpr (by decide)

/-- A byte at offset four of a device with quanta of four bytes: the dump prints five bytes of the
second quantum. -/
theorem dump_outside :
    ¬ ∀ (stale : Nat → Nat → UInt8) (tun : Tunables) (nrDevs : Nat)
        (actions : List (MemAction UInt8)) (t : MemState UInt8),
      Machine.Visits (step stale) (init tun nrDevs) actions t → ∀ i < t.nrDevs,
      1 ≤ (t.devices i).quantumLen → (t.devices i).quantumLen = t.objSize →
      1 ≤ (t.devices i).qsetLen → ∀ intr d, t.seqShow i intr = some (.ok d) →
      ∀ ref ∈ d.reads, (t.devices i).Inside ref := by
  intro h
  have hinside := h (fun _ _ => 0) ⟨4, 2, 4000⟩ 1 [.write 0 4 [97] {}] _ (.later rfl (.here _ _)) 0
    (by decide) (by decide) rfl (by decide) false _ rfl ⟨0, 1, 4⟩ (by decide)
  exact absurd hinside.1 (by decide)

end MemState

end Ldd3.Scull
