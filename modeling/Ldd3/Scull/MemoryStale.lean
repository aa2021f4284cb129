import Ldd3.Scull.MemoryMachine

/-!
# Stale bytes and the readers of the memory devices

The objects of the cache come with the contents of their last use. To follow those bytes, run
the devices on tagged bytes, `Cell`, that say whether a byte was stored by a write or is the
stale byte of some object. The code never looks at a byte, so the run on any concrete stale
contents is the image of the tagged run (`step_map`). `stale_bytes_hidden_iff` says that what the
readers get is independent of the stale contents exactly when every read of the tagged run covers
stored bytes only, and `stale_bytes_shown` is a run that shows them.
-/

namespace Ldd3.Scull

section Map

/-! Replacing the bytes by their images. -/

variable {β γ : Type} (f : β → γ)

def Quantum.map (quantum : Quantum β) : Quantum γ :=
  ⟨quantum.id, fun i => f (quantum.bytes i)⟩

def QuantumArray.map (array : QuantumArray β) : QuantumArray γ :=
  ⟨array.id, array.slots.map (Option.map (Quantum.map f))⟩

def ScullQset.map (node : ScullQset β) : ScullQset γ :=
  ⟨node.id, node.data.map (QuantumArray.map f)⟩

def ScullDev.map (dev : ScullDev β) : ScullDev γ :=
  ⟨dev.qset.map (ScullQset.map f), dev.quantumLen, dev.qsetLen, dev.len, dev.stuck⟩

def MemChoice.map (ch : MemChoice β) : MemChoice γ :=
  ⟨ch.intr, ch.alloc, ch.fault, fun i => (ch.spoilt i).map f⟩

def MemEffect.map (e : MemEffect β) : MemEffect γ :=
  ⟨e.copy, e.got.map f, e.freed, e.fPos, e.ret⟩

def MemAction.map : MemAction β → MemAction γ
  | openDev i mode ch => openDev i mode (ch.map f)
  | read i pos count ch => read i pos count (ch.map f)
  | write i pos data ch => write i pos (data.map f) (ch.map f)
  | ioctl cmd arg env => ioctl cmd arg env

def MemState.map (s : MemState β) : MemState γ :=
  ⟨s.tun, s.objSize, s.nrDevs, fun i => (s.devices i).map f, s.next⟩

variable {f}

/-- The walk to a node does not look at the bytes. -/
theorem scull_follow_map (alloc : Nat → Bool) (n : Nat) (nodes : List (ScullQset β)) (next : Nat) :
    scullFollow alloc n (nodes.map (ScullQset.map f)) next =
      ((scullFollow alloc n nodes next).1.map (ScullQset.map f),
        (scullFollow alloc n nodes next).2) := by
  induction n generalizing nodes next with
  | zero =>
      cases nodes with
      | nil =>
          simp only [List.map_nil, scullFollow]
          split <;> rfl
      | cons node rest => rfl
  | succ n ih =>
      cases nodes with
      | nil =>
          have hrest := ih [] (next + 1)
          simp only [List.map_nil] at hrest
          simp only [List.map_nil, scullFollow, hrest]
          split <;> rfl
      | cons node rest => simp only [List.map_cons, scullFollow, ih]

/-- The slot of a mapped array. -/
theorem getElem?_join_map (array : QuantumArray β) (j : Nat) :
    (array.map f).slots[j]?.join = (array.slots[j]?.join).map (Quantum.map f) := by
  simp only [QuantumArray.map, List.getElem?_map]
  cases array.slots[j]? with
  | none => rfl
  | some slot => cases slot <;> rfl

/-- The quantum in a slot of mapped nodes. -/
theorem slot_at_map (nodes : List (ScullQset β)) (i j : Nat) :
    slotAt (nodes.map (ScullQset.map f)) i j = (slotAt nodes i j).map (Quantum.map f) := by
  simp only [slotAt, List.getElem?_map]
  cases nodes[i]? with
  | none => rfl
  | some node =>
      cases hdata : node.data with
      | none => simp [ScullQset.map, hdata]
      | some array => simp [ScullQset.map, hdata, getElem?_join_map]

/-- A read does not look at the bytes. -/
theorem scull_read_map (dev : ScullDev β) (pos count : Nat) (ch : MemChoice β) (next : Nat) :
    scullRead (dev.map f) pos count (ch.map f) next =
      ((scullRead dev pos count ch next).1.map f, (scullRead dev pos count ch next).2.1,
        (scullRead dev pos count ch next).2.2.map f) := by
  have hposition : (dev.map f).position pos = dev.position pos := rfl
  have htotal : (dev.map f).totalLen = dev.totalLen := rfl
  have hfollow := scull_follow_map (f := f) ch.alloc (dev.position pos).qsetP dev.qset next
  have hslot := slot_at_map (f := f) (scullFollow ch.alloc (dev.position pos).qsetP dev.qset next).1
    (dev.position pos).qsetP (dev.position pos).quantumP
  unfold slotAt at hslot
  unfold scullRead
  rw [hposition, htotal]
  simp only [ScullDev.map, MemChoice.map, hfollow, hslot]
  by_cases hend : pos ≥ dev.len
  · rw [if_pos hend, if_pos hend]
    rfl
  · rw [if_neg hend, if_neg hend]
    by_cases hzero : dev.totalLen = 0
    · rw [if_pos hzero, if_pos hzero]
      rfl
    · rw [if_neg hzero, if_neg hzero]
      cases ((scullFollow ch.alloc (dev.position pos).qsetP dev.qset next).1[
          (dev.position pos).qsetP]?.bind ScullQset.data).bind fun array =>
          array.slots[(dev.position pos).quantumP]?.join with
      | none => rfl
      | some quantum =>
          cases ch.fault with
          | true => rfl
          | false => simp [MemEffect.map, Quantum.map, slice_map]

/-- The pointer array a write works with does not depend on the bytes. -/
theorem alloc_data_map (alloc : Nat → Bool) (qsetLen : Nat) (node : ScullQset β) (next : Nat) :
    allocData alloc qsetLen (node.map f) next =
      ((allocData alloc qsetLen node next).1.map (QuantumArray.map f),
        (allocData alloc qsetLen node next).2) := by
  unfold allocData
  cases hdata : node.data with
  | some array => simp [ScullQset.map, hdata]
  | none =>
      simp only [ScullQset.map, hdata, Option.map_none]
      split
      · simp [QuantumArray.map]
      · rfl

/-- The quantum a write works with is fresh or not whatever the bytes. -/
theorem alloc_quantum_map (stale : Nat → Nat → β) (alloc : Nat → Bool) (array : QuantumArray β)
    (quantumP next : Nat) :
    allocQuantum (fun o i => f (stale o i)) alloc (array.map f) quantumP next =
      ((allocQuantum stale alloc array quantumP next).1.map (Quantum.map f),
        (allocQuantum stale alloc array quantumP next).2) := by
  unfold allocQuantum
  rw [getElem?_join_map]
  cases array.slots[quantumP]?.join with
  | some quantum => rfl
  | none =>
      simp only [Option.map_none]
      split <;> rfl

theorem put_data_map (nodes : List (ScullQset β)) (qsetP : Nat) (node : ScullQset β)
    (array : QuantumArray β) :
    putData (nodes.map (ScullQset.map f)) qsetP (node.map f) (array.map f) =
      (putData nodes qsetP node array).map (ScullQset.map f) := by
  simp [putData, List.map_set, ScullQset.map]

theorem put_map (array : QuantumArray β) (quantumP : Nat) (quantum : Quantum β) :
    (array.map f).put quantumP (quantum.map f) = (array.put quantumP quantum).map f := by
  simp [QuantumArray.put, QuantumArray.map, List.map_set]

/-- A write stores the bytes it is given, whatever they are. -/
theorem scull_write_map (stale : Nat → Nat → β) (dev : ScullDev β) (pos : Nat) (data : List β)
    (ch : MemChoice β) (next : Nat) :
    scullWrite (fun o i => f (stale o i)) (dev.map f) pos (data.map f) (ch.map f) next =
      ((scullWrite stale dev pos data ch next).1.map f,
        (scullWrite stale dev pos data ch next).2.1,
        (scullWrite stale dev pos data ch next).2.2.map f) := by
  have hposition : (dev.map f).position pos = dev.position pos := rfl
  have htotal : (dev.map f).totalLen = dev.totalLen := rfl
  have hfollow := scull_follow_map (f := f) ch.alloc (dev.position pos).qsetP dev.qset next
  unfold scullWrite
  rw [hposition, htotal]
  simp only [ScullDev.map, MemChoice.map, hfollow, List.getElem?_map]
  by_cases hzero : dev.totalLen = 0
  · rw [if_pos hzero, if_pos hzero]
    rfl
  · rw [if_neg hzero, if_neg hzero]
    cases (scullFollow ch.alloc (dev.position pos).qsetP dev.qset next).1[
        (dev.position pos).qsetP]? with
    | none => rfl
    | some node =>
        simp only [Option.map_some, alloc_data_map]
        rcases allocData ch.alloc dev.qsetLen node
          (scullFollow ch.alloc (dev.position pos).qsetP dev.qset next).2 with ⟨_ | array, next₁⟩
        · rfl
        · simp only [Option.map_some, alloc_quantum_map]
          rcases allocQuantum stale ch.alloc array (dev.position pos).quantumP next₁ with
            ⟨_ | quantum, next₂⟩
          · simp [MemEffect.map, put_data_map]
          · -- only the bytes of the quantum differ, and they are images
            have hput : ∀ bytes : Nat → β,
                putData (List.map (ScullQset.map f)
                    (scullFollow ch.alloc (dev.position pos).qsetP dev.qset next).1)
                  (dev.position pos).qsetP (node.map f)
                  ((array.map f).put (dev.position pos).quantumP
                    ⟨(quantum.map f).id, fun i => f (bytes i)⟩) =
                (putData (scullFollow ch.alloc (dev.position pos).qsetP dev.qset next).1
                  (dev.position pos).qsetP node
                  (array.put (dev.position pos).quantumP ⟨quantum.id, bytes⟩)).map
                    (ScullQset.map f) := fun bytes => by
              rw [← put_data_map, ← put_map]
              rfl
            cases ch.fault with
            | true =>
                simp only [Option.map_some, List.length_map, if_true, Quantum.map, spoil_map]
                rw [← hput]
                rfl
            | false =>
                simp only [Option.map_some, List.length_map, Bool.false_eq_true, if_false,
                  Quantum.map, ← List.map_take, store_map]
                rw [← hput]
                rfl

/-- A trim frees the same objects whatever the bytes. -/
theorem scull_trim_map (tun : Tunables) (dev : ScullDev β) :
    scullTrim tun (dev.map f) = ((scullTrim tun dev).1.map f, (scullTrim tun dev).2) := by
  have hnode : ∀ node : ScullQset β,
      freedNode dev.qsetLen (node.map f) = freedNode dev.qsetLen node := by
    intro node
    cases hdata : node.data with
    | none => simp [freedNode, ScullQset.map, hdata]
    | some array =>
        have hids : (fun slot => Option.map Quantum.id slot) ∘ Option.map (Quantum.map f) =
            Option.map Quantum.id := by
          funext slot
          cases slot <;> rfl
        simp only [freedNode, ScullQset.map, hdata, Option.map_some, QuantumArray.map,
          ← List.map_take, List.filterMap_map, hids]
  simp [scullTrim, ScullDev.map, List.flatMap_map, hnode]

/-- A section under the lock that does not look at the bytes. -/
theorem locked_map (s : MemState β) (i : Nat) (ch : MemChoice β) (fPos : Option Nat)
    {body : ScullDev β → Nat → ScullDev β × Nat × MemEffect β}
    {body' : ScullDev γ → Nat → ScullDev γ × Nat × MemEffect γ}
    (hbody : ∀ dev next, body' (dev.map f) next =
      ((body dev next).1.map f, (body dev next).2.1, (body dev next).2.2.map f)) :
    (s.map f).locked i (ch.map f) fPos body' =
      (s.locked i ch fPos body).map fun r => (r.1.map f, r.2.map f) := by
  have hupdate : ∀ dev : ScullDev β,
      Function.update (fun j => (s.devices j).map f) i (dev.map f) =
        fun j => (Function.update s.devices i dev j).map f := by
    intro dev
    funext j
    by_cases heq : j = i
    · rw [heq, Function.update_self, Function.update_self]
    · rw [Function.update_of_ne heq, Function.update_of_ne heq]
  unfold MemState.locked
  by_cases hi : i < s.nrDevs
  · rw [if_pos hi, if_pos (show i < (s.map f).nrDevs from hi)]
    cases hintr : ch.intr with
    | true => simp [MemChoice.map, hintr, MemEffect.map]
    | false =>
        cases hstuck : (s.devices i).stuck with
        | true => simp [MemChoice.map, hintr, MemState.map, ScullDev.map, hstuck]
        | false =>
            have hstuck' : ((s.map f).devices i).stuck = false := hstuck
            simp only [MemChoice.map, hintr, hstuck', Bool.false_eq_true, if_false, Option.map_some]
            simp only [MemState.map, hbody, hupdate]
  · rw [if_neg hi, if_neg (show ¬ i < (s.map f).nrDevs from hi)]
    rfl

/-- No call looks at the bytes: the steps on the images are the images of the steps. -/
theorem step_map (stale : Nat → Nat → β) (s : MemState β) (a : MemAction β) :
    (s.map f).step (fun o i => f (stale o i)) (a.map f) =
      (s.step stale a).map fun r => (r.1.map f, r.2.map f) := by
  cases a with
  | openDev i mode ch =>
      simp only [MemAction.map, MemState.step]
      by_cases hmode : mode = .wronly
      · rw [if_pos hmode, if_pos hmode]
        exact locked_map s i ch none fun dev next => by
          simp only [MemState.map, scull_trim_map]
          rfl
      · rw [if_neg hmode, if_neg hmode]
        by_cases hi : i < s.nrDevs
        · rw [if_pos hi, if_pos (show i < (s.map f).nrDevs from hi)]
          rfl
        · rw [if_neg hi, if_neg (show ¬ i < (s.map f).nrDevs from hi)]
          rfl
  | read i pos count ch =>
      simp only [MemAction.map, MemState.step]
      by_cases hpos : pos + count < 2 ^ 63
      · rw [if_pos hpos, if_pos hpos]
        exact locked_map s i ch (some pos) fun dev next => scull_read_map dev pos count ch next
      · rw [if_neg hpos, if_neg hpos]
        rfl
  | write i pos data ch =>
      simp only [MemAction.map, MemState.step, List.length_map]
      by_cases hpos : pos + data.length < 2 ^ 63
      · rw [if_pos hpos, if_pos hpos]
        exact locked_map s i ch (some pos) fun dev next =>
          scull_write_map stale dev pos data ch next
      · rw [if_neg hpos, if_neg hpos]
        rfl
  | ioctl cmd arg env => rfl

end Map

/-- A byte with its origin: stored by a write, or the stale byte of an object at an offset. -/
inductive Cell where
  | stored (b : UInt8)
  | stale (obj off : Nat)
  deriving DecidableEq, Repr

/-- The byte a cell stands for when the objects have the contents `contents`. -/
def Cell.value (contents : Nat → Nat → UInt8) : Cell → UInt8
  | stored b => b
  | stale obj off => contents obj off

/-- The byte was stored by a write. -/
def Cell.isStored : Cell → Bool
  | stored _ => true
  | stale _ _ => false

/-- Tagging the bytes of an action and forgetting the tags gives the action back. -/
theorem MemAction.map_value_stored (contents : Nat → Nat → UInt8) (a : MemAction UInt8) :
    (a.map Cell.stored).map (Cell.value contents) = a := by
  have hch : ∀ ch : MemChoice UInt8, (ch.map Cell.stored).map (Cell.value contents) = ch := by
    rintro ⟨intr, alloc, fault, spoilt⟩
    simp only [MemChoice.map, MemChoice.mk.injEq, true_and]
    funext i
    cases spoilt i <;> rfl
  cases a with
  | openDev i mode ch => simp [MemAction.map, hch]
  | read i pos count ch => simp [MemAction.map, hch]
  | write i pos data ch =>
      simp only [MemAction.map, hch, List.map_map, MemAction.write.injEq, true_and, and_true]
      exact (List.map_congr_left fun _ _ => rfl).trans (List.map_id data)
  | ioctl => rfl

namespace MemState

/-- The run of the tagged bytes. -/
def taggedRun (tun : Tunables) (nrDevs : Nat) (actions : List (MemAction UInt8)) :
    Option (MemState Cell × List (MemEffect Cell)) :=
  Machine.run (step Cell.stale) (init tun nrDevs) (actions.map (MemAction.map Cell.stored))

/-- What the clients see of a run on objects with the contents `contents`: the bytes delivered by
each call, its result and the file position after it. -/
def observed (contents : Nat → Nat → UInt8) (tun : Tunables) (nrDevs : Nat)
    (actions : List (MemAction UInt8)) : Option (List (List UInt8 × MemRet × Option Nat)) :=
  (Machine.run (step contents) (init tun nrDevs) actions).map fun r =>
    r.2.map fun e => (e.got, e.ret, e.fPos)

/-- Every run is an image of the tagged run. -/
theorem observed_eq (contents : Nat → Nat → UInt8) (tun : Tunables) (nrDevs : Nat)
    (actions : List (MemAction UInt8)) :
    observed contents tun nrDevs actions =
      (taggedRun tun nrDevs actions).map fun r =>
        r.2.map fun e => (e.got.map (Cell.value contents), e.ret, e.fPos) := by
  have hmap := Machine.run_map (f := MemState.map (Cell.value contents))
    (g := MemAction.map (Cell.value contents)) (h := MemEffect.map (Cell.value contents))
    (fun s a => step_map Cell.stale s a) (init tun nrDevs)
    (actions.map (MemAction.map Cell.stored))
  have hactions : (actions.map (MemAction.map Cell.stored)).map
      (MemAction.map (Cell.value contents)) = actions := by
    rw [List.map_map]
    exact (List.map_congr_left fun a _ => MemAction.map_value_stored contents a).trans
      (List.map_id actions)
  rw [hactions] at hmap
  have hinit : (init tun nrDevs : MemState Cell).map (Cell.value contents) = init tun nrDevs := rfl
  have hcontents : (fun o i => Cell.value contents (Cell.stale o i)) = contents := rfl
  rw [hinit, hcontents] at hmap
  unfold observed taggedRun
  rw [hmap, Option.map_map]
  congr 1
  funext r
  simp [MemEffect.map]

/-- The read covers stored bytes only: if it is carried out on an allocated quantum, every byte of
it up to the end of the request, of the device and of the quantum was stored by a write. -/
def ReadsStored (s : MemState Cell) : MemAction Cell → Prop
  | .read i pos count ch =>
      ch.intr = false → ch.fault = false → pos < (s.devices i).len →
      (s.devices i).totalLen ≠ 0 → ∀ quantum,
      slotAt (s.devices i).qset ((s.devices i).position pos).qsetP
        ((s.devices i).position pos).quantumP = some quantum →
      ∀ j, j < min (min count ((s.devices i).len - pos))
          ((s.devices i).quantumLen - ((s.devices i).position pos).offsetP) →
        (quantum.bytes (((s.devices i).position pos).offsetP + j)).isStored = true
  | _ => True

/-- A read delivers stored bytes only if it covers stored bytes only. -/
theorem MemStep.reads_stored_iff {s t : MemState Cell} {a : MemAction Cell} {e : MemEffect Cell}
    (h : MemStep Cell.stale s a e t) (hs : s.Shaped) :
    s.ReadsStored a ↔ ∀ c ∈ e.got, c.isStored = true := by
  cases h with
  | readInterrupted i pos count ch hintr => simp [ReadsStored, hintr]
  | read i pos count ch dev next e hintr _ _ hread =>
      cases scull_read_outcome (hs i) hread with
      | atEnd hend =>
          simp only [ReadsStored, List.not_mem_nil, false_imp_iff, implies_true, iff_true]
          intro _ _ hlt
          omega
      | oops hzero => simp [ReadsStored, hzero]
      | hole nodes _ _ _ hnone => simp [ReadsStored, hnone]
      | faulted nodes n _ _ hfault => simp [ReadsStored, hfault]
      | copied nodes quantum n hlt hne _ hfault hslot hn =>
          simp only [ReadsStored, slice, List.mem_map, List.mem_range, hn]
          constructor
          · rintro hstored c ⟨j, hj, rfl⟩
            exact hstored hintr hfault hlt hne quantum hslot j hj
          · intro hgot _ _ _ _ other hother j hj
            cases hslot.symm.trans hother
            exact hgot _ ⟨j, hj, rfl⟩
  | write i pos data ch dev next e _ _ _ hwrite =>
      cases scull_write_outcome (hs i) hwrite <;> simp [ReadsStored]
  | _ => simp [ReadsStored]

/-- Two contents give the same values of cells that were stored. -/
theorem map_value_of_stored {cells : List Cell} (h : ∀ c ∈ cells, c.isStored = true)
    (contents contents' : Nat → Nat → UInt8) :
    cells.map (Cell.value contents) = cells.map (Cell.value contents') := by
  refine List.map_congr_left fun c hc => ?_
  cases c with
  | stored b => rfl
  | stale obj off => cases h _ hc

/-- Contents that differ everywhere give different values of any cell that was not stored. -/
theorem stored_of_map_value {cells : List Cell}
    (h : cells.map (Cell.value fun _ _ => 0) = cells.map (Cell.value fun _ _ => 1)) :
    ∀ c ∈ cells, c.isStored = true := by
  intro c hc
  have hvalue := List.map_inj_left.mp h c hc
  cases c with
  | stored b => rfl
  | stale obj off => simp [Cell.value] at hvalue

/-- Which runs hide the stale bytes. For a run of opens, reads and writes from module load whose
calls all return, what the clients see does not depend on the initial contents of the objects
exactly when every read of the run covers stored bytes only. -/
theorem stale_bytes_hidden_iff (tun : Tunables) (nrDevs : Nat) (actions : List (MemAction UInt8))
    {final : MemState Cell} {es : List (MemEffect Cell)}
    (hrun : taggedRun tun nrDevs actions = some (final, es)) :
    (∀ contents contents', observed contents tun nrDevs actions =
        observed contents' tun nrDevs actions) ↔
      ∀ t a e t', Machine.Takes (step Cell.stale) (init tun nrDevs)
        (actions.map (MemAction.map Cell.stored)) t a e t' → t.ReadsStored a := by
  have hobserved : ∀ contents, observed contents tun nrDevs actions =
      some (es.map fun e => (e.got.map (Cell.value contents), e.ret, e.fPos)) := by
    intro contents
    rw [observed_eq, hrun]
    rfl
  have hshaped : ∀ t, Machine.Visits (step Cell.stale) (init tun nrDevs)
      (actions.map (MemAction.map Cell.stored)) t → t.Shaped := fun t ht =>
    ht.invariant (fun _ _ _ _ hu hstep => (mem_step_sound hstep).shaped hu) (shaped_init tun nrDevs)
  have hmem := Machine.mem_effects_iff hrun
  simp only [hobserved, Option.some.injEq]
  constructor
  · intro hsame t a e t' htake
    rw [(mem_step_sound htake.step_eq).reads_stored_iff (hshaped t htake.source)]
    have heq := List.map_inj_left.mp (hsame (fun _ _ => 0) fun _ _ => 1) e
      ((hmem e).mpr ⟨t, a, t', htake⟩)
    exact stored_of_map_value (Prod.mk.inj heq).1
  · intro hstored contents contents'
    refine List.map_congr_left fun e he => ?_
    obtain ⟨t, a, t', htake⟩ := (hmem e).mp he
    have hgot := ((mem_step_sound htake.step_eq).reads_stored_iff (hshaped t htake.source)).mp
      (hstored t a e t' htake)
    rw [map_value_of_stored hgot contents contents']

/-- Write two bytes at the start of a device and read them back. -/
def writeAndRead : List (MemAction UInt8) :=
  [.openDev 0 .rdwr {}, .write 0 0 [8, 9] {}, .read 0 0 10 {}]

/-- The run completes. The read covers the two bytes that were stored, and nothing else shows. -/
theorem stale_bytes_hidden_write_read :
    (taggedRun ⟨4, 2, 4000⟩ 1 writeAndRead).isSome = true ∧
      ∀ contents contents', observed contents ⟨4, 2, 4000⟩ 1 writeAndRead =
        observed contents' ⟨4, 2, 4000⟩ 1 writeAndRead := by
  refine ⟨rfl, (stale_bytes_hidden_iff ⟨4, 2, 4000⟩ 1 writeAndRead rfl).mpr ?_⟩
  refine Machine.forall_takes_cons rfl trivial (Machine.forall_takes_cons rfl trivial
    (Machine.forall_takes_cons rfl ?_ Machine.forall_takes_nil))
  intro _ _ _ _ quantum hslot j hj
  cases hslot
  have hj : j < 2 := hj
  rcases (by omega : j = 0 ∨ j = 1) with rfl | rfl
  · rfl
  · rfl

/-- Write one byte at offset two of a device, and read from its start. -/
def skipAndRead : List (MemAction UInt8) :=
  [.openDev 0 .rdwr {}, .write 0 2 [9] {}, .read 0 0 3 {}]

/-- The read delivers the first two bytes of the object as the cache handed it out. -/
theorem stale_bytes_shown :
    ¬ ∀ (tun : Tunables) (nrDevs : Nat) (actions : List (MemAction UInt8))
        (contents contents' : Nat → Nat → UInt8),
      observed contents tun nrDevs actions = observed contents' tun nrDevs actions := by
  intro h
  have hsame := h ⟨4, 2, 4000⟩ 1 skipAndRead (fun _ _ => 0) fun _ _ => 1
  have hgot := congrArg (Option.map (List.map Prod.fst)) hsame
  exact absurd hgot (by decide)

end MemState

end Ldd3.Scull
