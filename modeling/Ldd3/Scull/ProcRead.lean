import Ldd3.Scull.Proc
import Ldd3.SeqFile

/-!
# Reading the dump of the memory devices

`/proc/scullmem` is a sequence file with one record for each device. A reader takes it in pieces of
any size while the devices are opened, read and written, and the dump of a device is printed again
if it does not fit or if the reader is interrupted. `scullmem_snapshots` says what the reader gets:
the dump of each device at one moment, in the order of the devices and of the moments.
-/

namespace Ldd3.Scull

/-- The bytes of a text. -/
def ascii (s : String) : List UInt8 := s.toList.map Char.toUInt8

/-- `%zu`. -/
def decimal (n : Nat) : List UInt8 := (Nat.toDigits 10 n).map Char.toUInt8

/-- The width of a conversion. -/
def padLeft (width : Nat) (text : List UInt8) : List UInt8 :=
  List.replicate (width - text.length) ' '.toUInt8 ++ text

/-- What `seq_printf` prints for a piece of the dump; `ptr` is the text of a pointer. -/
def SeqPiece.text (ptr : Option Nat → List UInt8) : SeqPiece → List UInt8
  | device i qsetLen quantumLen len =>
      ascii "\ndevice " ++ decimal i ++ ascii ": qset " ++ decimal qsetLen ++ ascii ", q " ++
        decimal quantumLen ++ ascii ", sz " ++ decimal len ++ ascii "\n"
  | item qset data =>
      ascii "  item at " ++ ptr (some qset) ++ ascii ", qset at " ++ ptr data ++ ascii "\n"
  | slot i quantum =>
      ascii "    " ++ padLeft 4 (decimal i) ++ ascii ": " ++ padLeft 8 (ptr (some quantum)) ++
        ascii "\n"
  | char c => [c]
  | newline => ascii "\n"

/-- `scull_seq_start`; a record is the number of a device. -/
def scullSeqStart (nrDevs pos : Nat) : Option Nat := if pos ≥ nrDevs then none else some pos

/-- `scull_seq_next`. -/
def scullSeqNext (nrDevs : Nat) (_ pos : Nat) : Option Nat × Nat :=
  let pos := pos + 1
  (if pos ≥ nrDevs then none else some pos, pos)

/-- `scull_seq_ops`, in a state of the devices and with or without a signal. -/
def scullSeqOps (ptr : Option Nat → List UInt8) (nrDevs : Nat) :
    Seq.Ops (MemState UInt8 × Bool) Nat where
  start := scullSeqStart nrDevs
  next := scullSeqNext nrDevs
  print w i := (w.1.seqShow i w.2).map fun r => r.map fun d => d.out.map (SeqPiece.text ptr)

/-- The devices and an open file. -/
structure ProcState where
  mem : MemState UInt8
  file : Seq.State Nat

/-- A call on a device, the start of a read, or a call of `scull_seq_show` by the read. -/
inductive ProcAction where
  | call (a : MemAction UInt8)
  | read (count : Nat) (alloc fault : Bool)
  | print (intr alloc fault : Bool)

/-- What happens on the file, with the devices that `scull_seq_show` finds. -/
abbrev ProcEffect := Option (Seq.Action (MemState UInt8 × Bool) × Seq.Result)

namespace ProcState

variable (stale : Nat → Nat → UInt8) (ptr : Option Nat → List UInt8) (nrDevs : Nat)

/-- After the module was loaded and the file was opened. -/
def init (tun : Tunables) : ProcState := ⟨.init tun nrDevs, .init⟩

/-- A step on the file. -/
def onFile (s : ProcState) (a : Seq.Action (MemState UInt8 × Bool)) :
    Option (ProcState × ProcEffect) :=
  (Seq.step (scullSeqOps ptr nrDevs) s.file a).map fun r => (⟨s.mem, r.1⟩, some (a, r.2))

/-- One step. -/
def step (s : ProcState) : ProcAction → Option (ProcState × ProcEffect)
  | .call a => (s.mem.step stale a).map fun r => (⟨r.1, s.file⟩, none)
  | .read count alloc fault => s.onFile ptr nrDevs (.read count alloc fault)
  | .print intr alloc fault => s.onFile ptr nrDevs (.print (s.mem, intr) alloc fault)

end ProcState

/-- What the reader has got. -/
def delivered (es : List ProcEffect) : List UInt8 := es.reduceOption.flatMap fun w => w.2.bytes

/-- The states in which `scull_seq_show` was called. -/
def seen (es : List ProcEffect) : List (MemState UInt8) :=
  (es.reduceOption.flatMap fun w => w.1.worlds).map Prod.fst

/-- The dump of device `i`. -/
def dump (ptr : Option Nat → List UInt8) (i : Nat) (s : MemState UInt8) : List UInt8 :=
  (scullSeqShow i (s.devices i)).out.flatMap (SeqPiece.text ptr)

/-- The dumps of the devices, the one of device `i` in the `i`th state. -/
def dumps (ptr : Option Nat → List UInt8) (snaps : List (MemState UInt8)) : List UInt8 :=
  (snaps.mapIdx (dump ptr)).flatten

variable {stale : Nat → Nat → UInt8} {ptr : Option Nat → List UInt8} {nrDevs : Nat}

/-- The iterator over the devices is lawful. -/
theorem lawful_scull_seq_ops : (scullSeqOps ptr nrDevs).Lawful := by
  intro i p _
  rfl

theorem scull_seq_start_eq_some {pos i : Nat} (h : scullSeqStart nrDevs pos = some i) :
    i = pos ∧ pos < nrDevs := by
  unfold scullSeqStart at h
  split at h
  · cases h
  · cases h
    exact ⟨rfl, by omega⟩

/-- A record is the dump of its device. -/
theorem dump_of_print {w : MemState UInt8 × Bool} {i : Nat} {pieces : List (List UInt8)}
    (h : (scullSeqOps ptr nrDevs).print w i = some (.ok pieces)) :
    pieces.flatten = dump ptr i w.1 := by
  obtain ⟨r, hshow, heq⟩ := Option.map_eq_some_iff.mp h
  unfold MemState.seqShow at hshow
  split at hshow
  · cases hshow
    cases heq
  · split at hshow
    · cases hshow
    · cases hshow
      cases heq
      rw [dump, List.flatMap_def]

/-- What was printed are the dumps of the devices. -/
theorem dumps_of_printed {ws : List (MemState UInt8 × Bool)} {text : List UInt8}
    (h : (scullSeqOps ptr nrDevs).Printed ws text) :
    text = dumps ptr (ws.map Prod.fst) ∧ ws.length ≤ nrDevs := by
  induction h with
  | nil => exact ⟨rfl, Nat.zero_le _⟩
  | @snoc ws text w p pieces _ hstart hprint ih =>
      obtain ⟨rfl, hlt⟩ := scull_seq_start_eq_some hstart
      refine ⟨?_, ?_⟩
      · rw [ih.1, dump_of_print hprint, dumps, dumps, List.map_append, List.mapIdx_append,
          List.flatten_append, List.length_map]
        simp
      · rw [List.length_append]
        exact hlt

namespace ProcState

/-- What happens on the file follows its rules. -/
theorem follows_of_step {s t : ProcState} {a : ProcAction} {e : ProcEffect}
    {history : List (Seq.Action (MemState UInt8 × Bool) × Seq.Result)}
    (hs : Seq.Follows (scullSeqOps ptr nrDevs) s.file history)
    (hstep : s.step stale ptr nrDevs a = some (t, e)) :
    Seq.Follows (scullSeqOps ptr nrDevs) t.file (history ++ e.toList) := by
  have honFile : ∀ a, s.onFile ptr nrDevs a = some (t, e) →
      Seq.Follows (scullSeqOps ptr nrDevs) t.file (history ++ e.toList) := by
    intro a hfile
    obtain ⟨r, hr, heq⟩ := Option.map_eq_some_iff.mp hfile
    cases heq
    exact hs.step lawful_scull_seq_ops hr
  cases a with
  | call a =>
      obtain ⟨r, -, heq⟩ := Option.map_eq_some_iff.mp hstep
      cases heq
      rw [Option.toList_none, List.append_nil]
      exact hs
  | read count alloc fault => exact honFile _ hstep
  | print intr alloc fault => exact honFile _ hstep

/-- So does everything that happens on it in a run. -/
theorem follows_of_run {s t : ProcState} {actions : List ProcAction} {es : List ProcEffect}
    {history : List (Seq.Action (MemState UInt8 × Bool) × Seq.Result)}
    (hs : Seq.Follows (scullSeqOps ptr nrDevs) s.file history)
    (hrun : Machine.run (step stale ptr nrDevs) s actions = some (t, es)) :
    Seq.Follows (scullSeqOps ptr nrDevs) t.file (history ++ es.reduceOption) := by
  induction actions generalizing s es history with
  | nil =>
      cases hrun
      show Seq.Follows _ t.file (history ++ [])
      rw [List.append_nil]
      exact hs
  | cons a rest ih =>
      obtain ⟨middle, e, tail, hfirst, hrest, rfl⟩ := Machine.run_cons_eq_some.mp hrun
      have htail := ih (follows_of_step hs hfirst) hrest
      rw [List.append_assoc] at htail
      cases e with
      | none => exact htail
      | some w => exact htail

/-- What a reader of `/proc/scullmem` gets, however it reads and whatever happens to the devices in
between: the beginning of the dumps of the devices in order, each of them as the device was at one
moment, the moments in order, and all of it once a read of at least one byte returns nothing,
whatever the reads before it asked for. -/
theorem scullmem_snapshots (tun : Tunables) {actions : List ProcAction} {t : ProcState}
    {es : List ProcEffect}
    (hrun : Machine.run (step stale ptr nrDevs) (init nrDevs tun) actions = some (t, es)) :
    ∃ snaps, snaps.Sublist (seen es) ∧ snaps.length ≤ nrDevs ∧
      delivered es <+: dumps ptr snaps ∧
      (Seq.LastPositive es.reduceOption →
        es.reduceOption.getLast?.map Prod.snd = some (some (.ok [])) →
        snaps.length = nrDevs ∧ delivered es = dumps ptr snaps) := by
  have hfollows := follows_of_run Seq.follows_init hrun
  rw [List.nil_append] at hfollows
  obtain ⟨ws, hsub, hlen, hprinted⟩ := hfollows.delivers.covers
  obtain ⟨htext, hle⟩ := dumps_of_printed hprinted
  refine ⟨ws.map Prod.fst, hsub.map _, ?_, ?_, fun hpos hlast => ?_⟩
  · rwa [List.length_map]
  · rw [← htext]
    exact List.prefix_append _ _
  · obtain ⟨hidle, hpending, hstart⟩ := hfollows.ends hpos hlast
    refine ⟨?_, ?_⟩
    · have hend : nrDevs ≤ t.file.file.index := by
        by_contra hlt
        rw [show (scullSeqOps ptr nrDevs).start = scullSeqStart nrDevs from rfl, scullSeqStart,
          if_neg hlt] at hstart
        cases hstart
      rw [List.length_map]
      omega
    · rw [← htext, hidle, hpending]
      exact (List.append_nil _).symm

/-- A reader that asks for nothing, takes ten bytes, is interrupted at the second device and then
reads to the end, while both devices are written to. -/
def interruptedReader : List ProcAction :=
  [.call (.write 0 0 [97, 98, 99] {}), .read 0 true false, .print false true false,
    .read 10 true false, .print false true false,
    .call (.write 0 0 [100] {}), .read 4000 true false, .print true true false,
    .call (.write 1 2 [101] {}), .read 4000 true false, .print false true false, .read 1 true false]

/-- It has got the dumps of both. -/
theorem scullmem_snapshots_interrupted :
    ∃ t es snaps,
      Machine.run (step (fun _ _ => 0) (fun _ => ascii "(ptrval)") 2) (init 2 ⟨4, 2, 4000⟩)
        interruptedReader = some (t, es) ∧
      snaps.Sublist (seen es) ∧ snaps.length = 2 ∧
      delivered es = dumps (fun _ => ascii "(ptrval)") snaps := by
  have hends : (Machine.run (step (fun _ _ => 0) (fun _ => ascii "(ptrval)") 2)
      (init 2 ⟨4, 2, 4000⟩) interruptedReader).map (fun r =>
        ((r.2.reduceOption.filterMap fun w => w.1.count).getLast?,
          r.2.reduceOption.getLast?.map Prod.snd)) = some (some 1, some (some (.ok []))) := rfl
  obtain ⟨⟨t, es⟩, hrun, heq⟩ := Option.map_eq_some_iff.mp hends
  obtain ⟨hpos, hlast⟩ := Prod.ext_iff.mp heq
  obtain ⟨snaps, hsub, -, -, hall⟩ := scullmem_snapshots ⟨4, 2, 4000⟩ hrun
  obtain ⟨hlen, hdumps⟩ := hall ⟨1, hpos, Nat.le_refl 1⟩ hlast
  exact ⟨t, es, snaps, hrun, hsub, hlen, hdumps⟩

/-- A read goes on, with memory for its buffer. -/
def Continues : ProcAction → Prop
  | .call _ => True
  | .read .. => False
  | .print _ alloc _ => alloc = true

instance : (a : ProcAction) → Decidable (Continues a)
  | .call _ => inferInstanceAs (Decidable True)
  | .read .. => inferInstanceAs (Decidable False)
  | .print _ alloc _ => inferInstanceAs (Decidable (alloc = true))

/-- A call of `scull_seq_show`. -/
def isPrint : ProcAction → Bool
  | .print .. => true
  | _ => false

variable {bound : Nat}

/-- A step brings a read closer to its end, or it is not one of the read. -/
theorem rank_of_step {s t : ProcState} {a : ProcAction} {e : ProcEffect}
    {history : List (Seq.Action (MemState UInt8 × Bool) × Seq.Result)}
    (hs : Seq.Follows (scullSeqOps ptr nrDevs) s.file history) (ha : Continues a)
    (hbound : ∀ i < nrDevs, (dump ptr i s.mem).length < bound)
    (hstep : s.step stale ptr nrDevs a = some (t, e)) :
    t.file.rank nrDevs bound + (if isPrint a then 1 else 0) ≤ s.file.rank nrDevs bound := by
  cases a with
  | call a =>
      obtain ⟨r, -, heq⟩ := Option.map_eq_some_iff.mp hstep
      cases heq
      exact Nat.le_refl _
  | read count alloc fault => exact ha.elim
  | print intr alloc fault =>
      obtain ⟨r, hr, heq⟩ := Option.map_eq_some_iff.mp hstep
      cases heq
      obtain rfl : alloc = true := ha
      refine Seq.rank_lt lawful_scull_seq_ops (fun i hi => if_pos hi)
        (fun i pieces hstart hprint => ?_) hs.delivers.ready hr
      obtain ⟨rfl, hlt⟩ := scull_seq_start_eq_some hstart
      rw [dump_of_print hprint]
      exact hbound _ hlt

/-- The call of `scull_seq_show` for a device whose lock is not lost returns. -/
theorem print_isSome {s : MemState UInt8} {i : Nat} (hlive : (s.devices i).stuck = false)
    (intr : Bool) : ((scullSeqOps ptr nrDevs).print (s, intr) i).isSome = true := by
  cases intr with
  | true => rfl
  | false =>
      show (Option.map _ (s.seqShow i false)).isSome = true
      rw [Option.isSome_map, MemState.seqShow, hlive]
      rfl

/-- A read in progress is at a device and can print it, unless its lock is lost. -/
theorem print_enabled {s : ProcState}
    {history : List (Seq.Action (MemState UInt8 × Bool) × Seq.Result)}
    (hs : Seq.Follows (scullSeqOps ptr nrDevs) s.file history) :
    s.file.control = .idle ∨ (s.file.file.index < nrDevs ∧
      ((s.mem.devices s.file.file.index).stuck = false →
        ∀ intr alloc fault, (s.step stale ptr nrDevs (.print intr alloc fault)).isSome)) := by
  rcases Seq.step_print_isSome hs.delivers.ready with hidle | ⟨i, hstart, henabled⟩
  · exact .inl hidle
  · obtain ⟨rfl, hlt⟩ := scull_seq_start_eq_some hstart
    refine .inr ⟨hlt, fun hlive intr alloc fault => ?_⟩
    show (Option.map _ _).isSome = true
    rw [Option.isSome_map, henabled]
    exact print_isSome hlive intr

/-- A read of `/proc/scullmem` returns. Whatever happens to the devices in between, it calls
`scull_seq_show` at most `nrDevs + bound + 1` times if no dump gets `bound` bytes and there is
memory for the buffer, and until it returns it can make the next call unless the lock of the device
it is at is lost. -/
theorem scullmem_read_returns (tun : Tunables) {before later : List ProcAction} {s t : ProcState}
    {es es' : List ProcEffect}
    (hbefore : Machine.run (step stale ptr nrDevs) (init nrDevs tun) before = some (s, es))
    (hrun : Machine.run (step stale ptr nrDevs) s later = some (t, es'))
    (hlater : ∀ a ∈ later, Continues a)
    (hbound : ∀ u, Machine.Visits (step stale ptr nrDevs) s later u →
      ∀ i < nrDevs, (dump ptr i u.mem).length < bound) :
    later.countP isPrint ≤ nrDevs + bound + 1 ∧
      (t.file.control = .idle ∨ (t.file.file.index < nrDevs ∧
        ((t.mem.devices t.file.file.index).stuck = false →
          ∀ intr alloc fault, (t.step stale ptr nrDevs (.print intr alloc fault)).isSome))) := by
  have hs := follows_of_run Seq.follows_init hbefore
  refine ⟨?_, print_enabled (follows_of_run hs hrun)⟩
  have hcount := Machine.count_le_of_rank
    (I := fun u => ∃ history, Seq.Follows (scullSeqOps ptr nrDevs) u.file history)
    (S := fun u a _ _ => Continues a ∧ ∀ i < nrDevs, (dump ptr i u.mem).length < bound)
    (fun u => u.file.rank nrDevs bound) isPrint ?_ ⟨_, hs⟩ ?_ hrun
  · have hle := s.file.rank_le nrDevs bound
    omega
  · rintro u a e v ⟨history, hu⟩ ⟨ha, hdump⟩ hstep
    exact ⟨⟨_, follows_of_step hu hstep⟩, rank_of_step hu ha hdump hstep⟩
  · intro u a e v htake
    exact ⟨hlater a htake.action_mem, hbound u htake.source⟩

/-- A read of ten bytes, and its call of `scull_seq_show` after a write. -/
def shortReader : List ProcAction × List ProcAction :=
  ([.call (.write 0 0 [97, 98, 99] {}), .read 10 true false],
    [.call (.write 0 3 [100] {}), .print false true false])

/-- The dumps of two devices have less than 200 bytes. -/
def ShortDumps (s : ProcState) : Prop :=
  ∀ i < 2, (dump (fun _ => ascii "(ptrval)") i s.mem).length < 200

instance (s : ProcState) : Decidable (ShortDumps s) := Nat.decidableBallLT 2 _

theorem scullmem_read_returns_short :
    ∃ s t es es',
      Machine.run (step (fun _ _ => 0) (fun _ => ascii "(ptrval)") 2) (init 2 ⟨4, 2, 4000⟩)
        shortReader.1 = some (s, es) ∧
      Machine.run (step (fun _ _ => 0) (fun _ => ascii "(ptrval)") 2) s shortReader.2 =
        some (t, es') ∧
      shortReader.2.countP isPrint ≤ 2 + 200 + 1 := by
  have htest : (Machine.run (step (fun _ _ => 0) (fun _ => ascii "(ptrval)") 2)
      (init 2 ⟨4, 2, 4000⟩) shortReader.1).map (fun r =>
        (Machine.run (step (fun _ _ => 0) (fun _ => ascii "(ptrval)") 2) r.1
          shortReader.2).isSome &&
        Machine.everywhere (step (fun _ _ => 0) (fun _ => ascii "(ptrval)") 2)
          (fun u => decide (ShortDumps u)) r.1 shortReader.2) = some true := rfl
  obtain ⟨⟨s, es⟩, hbefore, hrest⟩ := Option.map_eq_some_iff.mp htest
  obtain ⟨hrun, hall⟩ := Bool.and_eq_true_iff.mp hrest
  obtain ⟨⟨t, es'⟩, hrun⟩ := Option.isSome_iff_exists.mp hrun
  refine ⟨s, t, es, es', hbefore, hrun, ?_⟩
  exact (scullmem_read_returns ⟨4, 2, 4000⟩ hbefore hrun (by decide)
    fun u hu => of_decide_eq_true (Machine.visits_of_everywhere hall u hu)).1

end ProcState

end Ldd3.Scull
