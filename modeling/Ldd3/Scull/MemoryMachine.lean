import Mathlib.Logic.Function.Basic
import Ldd3.Machine
import Ldd3.Scull.Memory

/-!
# Clients of the scull memory devices

The system around the memory devices of one loaded module. Every call of `scull_open`,
`scull_read` and `scull_write` runs under the lock of its device from beginning to end and is one
step, and so is an ioctl. `MemStep` lists the steps. `scull_read_outcome` and
`scull_write_outcome` say what a read and a write can do to a device, in terms of `slotAt`, the
quantum in a given slot of a given node.
-/

namespace Ldd3.Scull

/-- The loaded module: its tunables, the object size of the cache, the devices and the number of
allocations so far. -/
structure MemState (β : Type) where
  tun : Tunables
  objSize : Nat
  nrDevs : Nat
  devices : Nat → ScullDev β
  next : Nat

/-- A call on a device, at a position the file layer hands down, or an ioctl. -/
inductive MemAction (β : Type) where
  | openDev (i : Nat) (mode : AccMode) (ch : MemChoice β)
  | read (i pos count : Nat) (ch : MemChoice β)
  | write (i pos : Nat) (data : List β) (ch : MemChoice β)
  | ioctl (cmd : BitVec 32) (arg : BitVec 64) (env : IoctlEnv)

variable {β : Type}

namespace MemState

/-- `scull_init_module`: the cache takes its object size from `scull_quantum`, and so does every
device. -/
def init (tun : Tunables) (nrDevs : Nat) : MemState β :=
  ⟨tun, tun.scullQuantum, nrDevs, fun _ => ⟨[], tun.scullQuantum, tun.scullQset, 0, false⟩, 0⟩

/-- A section of a call under the lock of device `i`. -/
def locked (s : MemState β) (i : Nat) (ch : MemChoice β) (fPos : Option Nat)
    (body : ScullDev β → Nat → ScullDev β × Nat × MemEffect β) :
    Option (MemState β × MemEffect β) :=
  if i < s.nrDevs then
    if ch.intr then some (s, { fPos := fPos, ret := .failed .ERESTARTSYS })
    else if (s.devices i).stuck then none
    else
      let (dev, next, e) := body (s.devices i) s.next
      some ({ s with devices := Function.update s.devices i dev, next := next }, e)
  else none

/-- One step of the clients. The file layer refuses positions from `2 ^ 63` on. -/
def step (stale : Nat → Nat → β) (s : MemState β) :
    MemAction β → Option (MemState β × MemEffect β)
  | .openDev i mode ch =>
      if mode = .wronly then
        s.locked i ch none fun dev next =>
          let (dev, freed) := scullTrim s.tun dev
          (dev, next, { freed := freed, ret := .done 0 })
      else if i < s.nrDevs then some (s, { ret := .done 0 })
      else none
  | .read i pos count ch =>
      if pos + count < 2 ^ 63 then
        s.locked i ch (some pos) fun dev next => scullRead dev pos count ch next
      else none
  | .write i pos data ch =>
      if pos + data.length < 2 ^ 63 then
        s.locked i ch (some pos) fun dev next => scullWrite stale dev pos data ch next
      else none
  | .ioctl cmd arg env =>
      let result := scullIoctl s.tun cmd arg env
      some ({ s with tun := result.tunables }, { ret := .ioctl result.ret })

/-- The steps of `step`, one constructor for each kind. -/
inductive MemStep (stale : Nat → Nat → β) (s : MemState β) :
    MemAction β → MemEffect β → MemState β → Prop where
  | openInterrupted (i ch) : ch.intr = true →
      MemStep stale s (.openDev i .wronly ch) { ret := .failed .ERESTARTSYS } s
  | opened (i mode ch) : mode ≠ .wronly → MemStep stale s (.openDev i mode ch) { ret := .done 0 } s
  | trimmed (i ch) : ch.intr = false → i < s.nrDevs →
      MemStep stale s (.openDev i .wronly ch)
        { freed := (scullTrim s.tun (s.devices i)).2, ret := .done 0 }
        { s with devices := Function.update s.devices i (scullTrim s.tun (s.devices i)).1 }
  | readInterrupted (i pos count ch) : ch.intr = true →
      MemStep stale s (.read i pos count ch)
        { fPos := some pos, ret := .failed .ERESTARTSYS } s
  | read (i pos count ch dev next e) : ch.intr = false → i < s.nrDevs → pos + count < 2 ^ 63 →
      scullRead (s.devices i) pos count ch s.next = (dev, next, e) →
      MemStep stale s (.read i pos count ch) e
        { s with devices := Function.update s.devices i dev, next := next }
  | writeInterrupted (i pos data ch) : ch.intr = true →
      MemStep stale s (.write i pos data ch)
        { fPos := some pos, ret := .failed .ERESTARTSYS } s
  | write (i pos data ch dev next e) : ch.intr = false → i < s.nrDevs →
      pos + data.length < 2 ^ 63 →
      scullWrite stale (s.devices i) pos data ch s.next = (dev, next, e) →
      MemStep stale s (.write i pos data ch) e
        { s with devices := Function.update s.devices i dev, next := next }
  | ioctl (cmd arg env) :
      MemStep stale s (.ioctl cmd arg env) { ret := .ioctl (scullIoctl s.tun cmd arg env).ret }
        { s with tun := (scullIoctl s.tun cmd arg env).tunables }

variable {stale : Nat → Nat → β} {s t : MemState β} {a : MemAction β} {e : MemEffect β}

/-- A section under the lock is interrupted or runs to its end. -/
theorem locked_eq_some {i : Nat} {ch : MemChoice β} {fPos : Option Nat}
    {body : ScullDev β → Nat → ScullDev β × Nat × MemEffect β}
    (h : s.locked i ch fPos body = some (t, e)) :
    (ch.intr = true ∧ t = s ∧ e = { fPos := fPos, ret := .failed .ERESTARTSYS }) ∨
      (ch.intr = false ∧ i < s.nrDevs ∧ ∃ dev next, body (s.devices i) s.next = (dev, next, e) ∧
        t = { s with devices := Function.update s.devices i dev, next := next }) := by
  unfold locked at h
  split at h
  · rename_i hi
    split at h
    · rename_i hintr
      cases h
      exact .inl ⟨hintr, rfl, rfl⟩
    · rename_i hintr
      split at h
      · cases h
      · cases hbody : body (s.devices i) s.next with
        | mk dev rest =>
            rw [hbody] at h
            cases h
            exact .inr ⟨by simpa using hintr, hi, dev, rest.1, rfl, rfl⟩
  · cases h

/-- A section under a lock that is not stuck ends. -/
theorem locked_ends {i : Nat} (hi : i < s.nrDevs) (hlive : (s.devices i).stuck = false)
    (ch : MemChoice β) (fPos : Option Nat)
    (body : ScullDev β → Nat → ScullDev β × Nat × MemEffect β) :
    ∃ t e, s.locked i ch fPos body = some (t, e) := by
  unfold locked
  rw [if_pos hi]
  split
  · exact ⟨_, _, rfl⟩
  · rw [hlive]
    exact ⟨_, _, rfl⟩

/-- Every step of the machine is one of the listed kinds. -/
theorem mem_step_sound (h : s.step stale a = some (t, e)) : MemStep stale s a e t := by
  cases a with
  | openDev i mode ch =>
      simp only [step] at h
      split at h
      · rename_i hmode
        subst hmode
        rcases locked_eq_some h with ⟨hintr, rfl, rfl⟩ | ⟨hintr, hi, dev, next, hbody, rfl⟩
        · exact .openInterrupted _ _ hintr
        · cases hbody
          exact .trimmed _ _ hintr hi
      · rename_i hmode
        split at h
        · cases h
          exact .opened _ _ _ hmode
        · cases h
  | read i pos count ch =>
      simp only [step] at h
      split at h
      · rename_i hpos
        rcases locked_eq_some h with ⟨hintr, rfl, rfl⟩ | ⟨hintr, hi, dev, next, hbody, rfl⟩
        · exact .readInterrupted _ _ _ _ hintr
        · exact .read _ _ _ _ _ _ _ hintr hi hpos hbody
      · cases h
  | write i pos data ch =>
      simp only [step] at h
      split at h
      · rename_i hpos
        rcases locked_eq_some h with ⟨hintr, rfl, rfl⟩ | ⟨hintr, hi, dev, next, hbody, rfl⟩
        · exact .writeInterrupted _ _ _ _ hintr
        · exact .write _ _ _ _ _ _ _ hintr hi hpos hbody
      · cases h
  | ioctl cmd arg env =>
      cases h
      exact .ioctl _ _ _

end MemState

/-- The quantum in slot `j` of node `i`. -/
def slotAt (nodes : List (ScullQset β)) (i j : Nat) : Option (Quantum β) :=
  (nodes[i]?.bind ScullQset.data).bind fun array => array.slots[j]?.join

/-- Every pointer array has `qset_len` pointers. -/
def ArraysFit (nodes : List (ScullQset β)) (qsetLen : Nat) : Prop :=
  ∀ node ∈ nodes, ∀ array, node.data = some array → array.slots.length = qsetLen

/-- Nodes or empty arrays may have been added, but no quantum. -/
structure SameSlots (nodes nodes' : List (ScullQset β)) (qsetLen : Nat) : Prop where
  slots : ∀ i j, slotAt nodes' i j = slotAt nodes i j
  arrays : ArraysFit nodes' qsetLen

/-- Slot `j` of node `i` holds `quantum`, and every other slot what it held before. -/
structure SlotSet (nodes nodes' : List (ScullQset β)) (qsetLen i j : Nat) (quantum : Quantum β) :
    Prop where
  slots : ∀ i' j', slotAt nodes' i' j' =
    if i' = i ∧ j' = j then some quantum else slotAt nodes i' j'
  arrays : ArraysFit nodes' qsetLen

/-- The walk to a node adds empty nodes only. -/
theorem scull_follow_same_slots (alloc : Nat → Bool) (qsetLen n : Nat)
    {nodes : List (ScullQset β)} (next : Nat) (h : ArraysFit nodes qsetLen) :
    SameSlots nodes (scullFollow alloc n nodes next).1 qsetLen := by
  induction n generalizing nodes next with
  | zero =>
      cases nodes with
      | nil =>
          simp only [scullFollow]
          split
          · refine ⟨fun i j => ?_, by simp [ArraysFit]⟩
            cases i <;> simp [slotAt]
          · exact ⟨fun _ _ => rfl, h⟩
      | cons node rest => exact ⟨fun _ _ => rfl, h⟩
  | succ n ih =>
      cases nodes with
      | nil =>
          simp only [scullFollow]
          split
          · obtain ⟨hslots, harrays⟩ := ih (next + 1) h
            refine ⟨fun i j => ?_, by simpa [ArraysFit] using harrays⟩
            cases i with
            | zero => simp [slotAt]
            | succ i => simpa [slotAt] using hslots i j
          · exact ⟨fun _ _ => rfl, h⟩
      | cons node rest =>
          have hrest : ArraysFit rest qsetLen := by
            intro other hmem
            exact h other (List.mem_cons_of_mem _ hmem)
          obtain ⟨hslots, harrays⟩ := ih next hrest
          refine ⟨fun i j => ?_, ?_⟩
          · cases i with
            | zero => rfl
            | succ i => simpa [slotAt, scullFollow] using hslots i j
          · intro other hmem
            rcases List.mem_cons.mp hmem with rfl | hmem
            · exact h other List.mem_cons_self
            · exact harrays other hmem

/-- The slots after a node got a new array. -/
theorem slot_at_put_data {nodes : List (ScullQset β)} {i : Nat} {node : ScullQset β}
    (hnode : nodes[i]? = some node) (array : QuantumArray β) (i' j' : Nat) :
    slotAt (putData nodes i node array) i' j' =
      if i' = i then array.slots[j']?.join else slotAt nodes i' j' := by
  have hlt := (List.getElem?_eq_some_iff.mp hnode).1
  by_cases heq : i' = i
  · subst heq
    simp [slotAt, putData, hlt]
  · simp [slotAt, putData, heq, List.getElem?_set_ne (Ne.symm heq)]

/-- A node with an array of `qset_len` pointers keeps the arrays in shape. -/
theorem arrays_fit_put_data {nodes : List (ScullQset β)} {qsetLen : Nat}
    (h : ArraysFit nodes qsetLen) (i : Nat) (node : ScullQset β) {array : QuantumArray β}
    (harray : array.slots.length = qsetLen) : ArraysFit (putData nodes i node array) qsetLen := by
  intro other hmem array' hdata
  rcases List.mem_or_eq_of_mem_set hmem with hmem | rfl
  · exact h other hmem array' hdata
  · cases hdata
    exact harray

/-- The array a write works with has the pointers the node had, if any. -/
theorem alloc_data_eq_some {alloc : Nat → Bool} {nodes : List (ScullQset β)} {qsetLen i next : Nat}
    {node : ScullQset β} {array : QuantumArray β} {next' : Nat} (h : ArraysFit nodes qsetLen)
    (hnode : nodes[i]? = some node)
    (halloc : allocData alloc qsetLen node next = (some array, next')) :
    array.slots.length = qsetLen ∧ ∀ j, array.slots[j]?.join = slotAt nodes i j := by
  unfold allocData at halloc
  split at halloc
  · rename_i data hdata
    cases halloc
    exact ⟨h node (List.mem_of_getElem? hnode) _ hdata, fun j => by simp [slotAt, hnode, hdata]⟩
  · rename_i hdata
    split at halloc
    · cases halloc
      refine ⟨List.length_replicate, fun j => ?_⟩
      simp only [slotAt, hnode, hdata, List.getElem?_replicate, Option.bind_some, Option.bind_none]
      split <;> rfl
    · cases halloc

/-- The quantum a write works with is the one in the slot or, if the slot is `NULL`, a fresh one
with stale contents. -/
def WorksWith (stale : Nat → Nat → β) (nodes : List (ScullQset β)) (i j : Nat)
    (quantum : Quantum β) : Prop :=
  slotAt nodes i j = some quantum ∨ slotAt nodes i j = none ∧ quantum.bytes = stale quantum.id

/-- Empty nodes do not change which quantum a write works with. -/
theorem SameSlots.works_with {stale : Nat → Nat → β} {nodes nodes' : List (ScullQset β)}
    {qsetLen i j : Nat} {quantum : Quantum β} (h : SameSlots nodes nodes' qsetLen)
    (hworks : WorksWith stale nodes' i j quantum) : WorksWith stale nodes i j quantum := by
  simpa only [WorksWith, h.slots] using hworks

/-- Empty nodes do not matter to the slots a write leaves. -/
theorem SameSlots.slot_set {nodes nodes' nodes'' : List (ScullQset β)} {qsetLen i j : Nat}
    {quantum : Quantum β} (h : SameSlots nodes nodes' qsetLen)
    (hset : SlotSet nodes' nodes'' qsetLen i j quantum) :
    SlotSet nodes nodes'' qsetLen i j quantum :=
  ⟨fun i' j' => by rw [hset.slots, h.slots], hset.arrays⟩

/-- Where a write gets its quantum. -/
theorem alloc_quantum_eq_some {stale : Nat → Nat → β} {alloc : Nat → Bool} {array : QuantumArray β}
    {nodes : List (ScullQset β)} {i j next next' : Nat} {quantum : Quantum β}
    (harray : array.slots[j]?.join = slotAt nodes i j)
    (h : allocQuantum stale alloc array j next = (some quantum, next')) :
    WorksWith stale nodes i j quantum := by
  unfold allocQuantum at h
  split at h
  · rename_i old hold
    cases h
    exact .inl (harray.symm.trans hold)
  · rename_i hold
    split at h
    · cases h
      exact .inr ⟨harray.symm.trans hold, rfl⟩
    · cases h

/-- The slots after a quantum was put into an array of a node. -/
theorem slot_set_put {nodes : List (ScullQset β)} {qsetLen i j : Nat} {node : ScullQset β}
    {array : QuantumArray β} (h : ArraysFit nodes qsetLen) (hnode : nodes[i]? = some node)
    (hlength : array.slots.length = qsetLen)
    (harray : ∀ j', array.slots[j']?.join = slotAt nodes i j') (hj : j < qsetLen)
    (quantum : Quantum β) :
    SlotSet nodes (putData nodes i node (array.put j quantum)) qsetLen i j quantum := by
  refine ⟨fun i' j' => ?_, arrays_fit_put_data h i node (by simpa [QuantumArray.put] using hlength)⟩
  rw [slot_at_put_data hnode]
  by_cases hi : i' = i
  · subst hi
    by_cases heq : j' = j
    · subst heq
      have hlt : j' < array.slots.length := hlength ▸ hj
      simp [QuantumArray.put, hlt]
    · rw [if_pos rfl, if_neg (by simp [heq]), ← harray j']
      simp [QuantumArray.put, List.getElem?_set_ne (Ne.symm heq)]
  · simp [hi]

/-- With a nonzero `total_len`, the slot of a position is one of the array's and its offset lies in
the quantum. -/
theorem position_lt {dev : ScullDev β} (h : dev.totalLen ≠ 0) (pos : Nat) :
    (dev.position pos).quantumP < dev.qsetLen ∧ (dev.position pos).offsetP < dev.quantumLen := by
  have hle : dev.totalLen ≤ dev.quantumLen * dev.qsetLen := Nat.mod_le _ _
  have hpos : 0 < dev.quantumLen := by
    rcases Nat.eq_zero_or_pos dev.quantumLen with hzero | hpos
    · simp [ScullDev.totalLen, hzero] at h
    · exact hpos
  have hrest : pos % dev.totalLen < dev.quantumLen * dev.qsetLen :=
    (Nat.mod_lt _ (Nat.pos_of_ne_zero h)).trans_le hle
  exact ⟨Nat.div_lt_of_lt_mul hrest, Nat.mod_lt _ hpos⟩

/-- The offset at which a quantum begins. -/
def ScullDev.start (dev : ScullDev β) (i j : Nat) : Nat :=
  i * dev.totalLen + j * dev.quantumLen

/-- The bytes of the quantum in slot `j` that stand for an offset, which are all of them unless
`total_len` has wrapped. -/
def ScullDev.room (dev : ScullDev β) (j : Nat) : Nat :=
  min dev.quantumLen (dev.totalLen - j * dev.quantumLen)

/-- The offset of a byte of a quantum. -/
theorem position_eq_iff {dev : ScullDev β} (hne : dev.totalLen ≠ 0) (x i j off : Nat) :
    dev.position x = ⟨i, j, off⟩ ↔ off < dev.room j ∧ x = dev.start i j + off := by
  have hquantum : 0 < dev.quantumLen := Nat.zero_lt_of_lt (position_lt hne x).2
  rw [ScullDev.room, ScullDev.start, Nat.mul_comm i, Nat.mul_comm j]
  simp only [ScullDev.position, ScullFollow.mk.injEq, Nat.div_mod_unique hquantum]
  constructor
  · rintro ⟨hnode, hslot, hoff⟩
    have hsplit := (Nat.div_mod_unique (Nat.pos_of_ne_zero hne)).mp ⟨hnode, hslot.symm⟩
    omega
  · rintro ⟨hoff, hx⟩
    have hsplit := (Nat.div_mod_unique (Nat.pos_of_ne_zero hne)).mpr
      (And.intro (show off + dev.quantumLen * j + dev.totalLen * i = x by omega) (by omega))
    exact ⟨hsplit.1, hsplit.2.symm, by omega⟩

/-- What a read does with the lock held. -/
inductive ReadOutcome (dev : ScullDev β) (pos count : Nat) (ch : MemChoice β) :
    ScullDev β → MemEffect β → Prop where
  | atEnd : dev.len ≤ pos → ReadOutcome dev pos count ch dev { fPos := some pos, ret := .done 0 }
  | oops : dev.totalLen = 0 →
      ReadOutcome dev pos count ch { dev with stuck := true } { fPos := some pos, ret := .oops }
  | hole (nodes) : pos < dev.len → dev.totalLen ≠ 0 → SameSlots dev.qset nodes dev.qsetLen →
      slotAt dev.qset (dev.position pos).qsetP (dev.position pos).quantumP = none →
      ReadOutcome dev pos count ch { dev with qset := nodes } { fPos := some pos, ret := .done 0 }
  | faulted (nodes n) : dev.totalLen ≠ 0 → SameSlots dev.qset nodes dev.qsetLen → ch.fault = true →
      n ≤ dev.quantumLen - (dev.position pos).offsetP →
      ReadOutcome dev pos count ch { dev with qset := nodes }
        { copy := some ((dev.position pos).offsetP, n), fPos := some pos, ret := .failed .EFAULT }
  | copied (nodes quantum n) : pos < dev.len → dev.totalLen ≠ 0 →
      SameSlots dev.qset nodes dev.qsetLen → ch.fault = false →
      slotAt dev.qset (dev.position pos).qsetP (dev.position pos).quantumP = some quantum →
      n = min (min count (dev.len - pos)) (dev.quantumLen - (dev.position pos).offsetP) →
      ReadOutcome dev pos count ch { dev with qset := nodes }
        { copy := some ((dev.position pos).offsetP, n)
          got := slice quantum.bytes (dev.position pos).offsetP n
          fPos := some (pos + n)
          ret := .done n }

/-- A read has one of the listed outcomes. -/
theorem scull_read_outcome {dev dev' : ScullDev β} {pos count next next' : Nat} {ch : MemChoice β}
    {e : MemEffect β} (harrays : ArraysFit dev.qset dev.qsetLen)
    (h : scullRead dev pos count ch next = (dev', next', e)) :
    ReadOutcome dev pos count ch dev' e := by
  unfold scullRead at h
  split at h
  · rename_i hend
    cases h
    exact .atEnd hend
  · rename_i hlen
    simp only at h
    split at h
    · rename_i hzero
      cases h
      exact .oops hzero
    · rename_i hne
      have hsame := scull_follow_same_slots ch.alloc dev.qsetLen (dev.position pos).qsetP next
        harrays
      have hcount : (if pos + count > dev.len then dev.len - pos else count) =
          min count (dev.len - pos) := by
        split <;> omega
      have hslot := hsame.slots (dev.position pos).qsetP (dev.position pos).quantumP
      unfold slotAt at hslot
      split at h
      · rename_i hnone
        cases h
        exact .hole _ (by omega) hne hsame (hslot.symm.trans hnone)
      · rename_i quantum hsome
        split at h
        · rename_i hfault
          cases h
          exact .faulted _ _ hne hsame hfault (min_le_right _ _)
        · rename_i hfault
          cases h
          exact .copied _ quantum _ (by omega) hne hsame (by simpa using hfault)
            (hslot.symm.trans hsome) (by rw [hcount])

/-- What a write does with the lock held. -/
inductive WriteOutcome (stale : Nat → Nat → β) (dev : ScullDev β) (pos : Nat) (data : List β)
    (ch : MemChoice β) : ScullDev β → MemEffect β → Prop where
  | oops : dev.totalLen = 0 →
      WriteOutcome stale dev pos data ch { dev with stuck := true }
        { fPos := some pos, ret := .oops }
  | noMemory (nodes) : SameSlots dev.qset nodes dev.qsetLen →
      WriteOutcome stale dev pos data ch { dev with qset := nodes }
        { fPos := some pos, ret := .failed .ENOMEM }
  | faulted (nodes quantum n) : dev.totalLen ≠ 0 → ch.fault = true →
      WorksWith stale dev.qset (dev.position pos).qsetP (dev.position pos).quantumP quantum →
      n = min data.length (dev.quantumLen - (dev.position pos).offsetP) →
      SlotSet dev.qset nodes dev.qsetLen (dev.position pos).qsetP (dev.position pos).quantumP
        { quantum with bytes := spoil quantum.bytes (dev.position pos).offsetP n ch.spoilt } →
      WriteOutcome stale dev pos data ch { dev with qset := nodes }
        { copy := some ((dev.position pos).offsetP, n), fPos := some pos, ret := .failed .EFAULT }
  | stored (nodes quantum n) : dev.totalLen ≠ 0 → ch.fault = false →
      WorksWith stale dev.qset (dev.position pos).qsetP (dev.position pos).quantumP quantum →
      n = min data.length (dev.quantumLen - (dev.position pos).offsetP) →
      SlotSet dev.qset nodes dev.qsetLen (dev.position pos).qsetP (dev.position pos).quantumP
        { quantum with bytes := store quantum.bytes (dev.position pos).offsetP (data.take n) } →
      WriteOutcome stale dev pos data ch
        { dev with qset := nodes, len := max dev.len (pos + n) }
        { copy := some ((dev.position pos).offsetP, n), fPos := some (pos + n), ret := .done n }

/-- A write has one of the listed outcomes. -/
theorem scull_write_outcome {stale : Nat → Nat → β} {dev dev' : ScullDev β} {pos next next' : Nat}
    {data : List β} {ch : MemChoice β} {e : MemEffect β}
    (harrays : ArraysFit dev.qset dev.qsetLen)
    (h : scullWrite stale dev pos data ch next = (dev', next', e)) :
    WriteOutcome stale dev pos data ch dev' e := by
  unfold scullWrite at h
  split at h
  · rename_i hzero
    cases h
    exact .oops hzero
  · rename_i hne
    have hsame := scull_follow_same_slots ch.alloc dev.qsetLen (dev.position pos).qsetP next harrays
    simp only at h
    split at h
    · cases h
      exact .noMemory _ hsame
    · rename_i node hnode
      split at h
      · cases h
        exact .noMemory _ hsame
      · rename_i array next₁ hdata
        obtain ⟨hlength, harray⟩ := alloc_data_eq_some hsame.arrays hnode hdata
        split at h
        · cases h
          refine .noMemory _ ⟨fun i j => ?_, arrays_fit_put_data hsame.arrays _ _ hlength⟩
          rw [slot_at_put_data hnode]
          split
          · rename_i heq
            rw [heq, harray, hsame.slots]
          · exact hsame.slots i j
        · rename_i quantum next₂ hquantum
          have hworks := hsame.works_with (alloc_quantum_eq_some (harray _) hquantum)
          have hset := fun bytes => hsame.slot_set (slot_set_put hsame.arrays hnode hlength harray
            (position_lt hne pos).1 { quantum with bytes := bytes })
          have hmax : ∀ n, (if dev.len < pos + n then pos + n else dev.len) =
              max dev.len (pos + n) := fun n => by split <;> omega
          split at h
          · rename_i hfault
            cases h
            exact .faulted _ quantum _ hne hfault hworks rfl (hset _)
          · rename_i hfault
            rw [hmax] at h
            cases h
            exact .stored _ quantum _ hne (by simpa using hfault) hworks rfl (hset _)

/-- A read keeps the arrays in shape. -/
theorem ReadOutcome.arrays {dev dev' : ScullDev β} {pos count : Nat} {ch : MemChoice β}
    {e : MemEffect β} (h : ReadOutcome dev pos count ch dev' e)
    (harrays : ArraysFit dev.qset dev.qsetLen) : ArraysFit dev'.qset dev'.qsetLen := by
  cases h with
  | atEnd | oops => exact harrays
  | hole nodes _ _ hsame => exact hsame.arrays
  | faulted nodes n _ hsame => exact hsame.arrays
  | copied nodes quantum n _ _ hsame => exact hsame.arrays

/-- A write keeps the arrays in shape. -/
theorem WriteOutcome.arrays {stale : Nat → Nat → β} {dev dev' : ScullDev β} {pos : Nat}
    {data : List β} {ch : MemChoice β} {e : MemEffect β}
    (h : WriteOutcome stale dev pos data ch dev' e) (harrays : ArraysFit dev.qset dev.qsetLen) :
    ArraysFit dev'.qset dev'.qsetLen := by
  cases h with
  | oops => exact harrays
  | noMemory nodes hsame => exact hsame.arrays
  | faulted nodes quantum n _ _ _ _ hset => exact hset.arrays
  | stored nodes quantum n _ _ _ _ hset => exact hset.arrays

namespace MemState

/-- The arrays of every device are in shape. -/
def Shaped (s : MemState β) : Prop :=
  ∀ i, ArraysFit (s.devices i).qset (s.devices i).qsetLen

/-- The module starts without nodes. -/
theorem shaped_init (tun : Tunables) (nrDevs : Nat) : (init tun nrDevs : MemState β).Shaped := by
  intro i node hmem
  simp [init] at hmem

variable {stale : Nat → Nat → β} {s t : MemState β} {a : MemAction β} {e : MemEffect β}

/-- What holds of every device and of the new value of one holds of every device after the
update. -/
theorem forall_update {P : ScullDev β → Prop} {devices : Nat → ScullDev β} {i : Nat}
    {dev : ScullDev β} (h : ∀ j, P (devices j)) (hdev : P dev) (j : Nat) :
    P (Function.update devices i dev j) := by
  by_cases heq : j = i
  · rw [heq, Function.update_self]
    exact hdev
  · rw [Function.update_of_ne heq]
    exact h j

/-- What a trim and every outcome of a read or a write keep of a device, every step keeps of all
devices. -/
theorem MemStep.forall_devices {P : ScullDev β → Prop} (h : MemStep stale s a e t)
    (hshaped : s.Shaped) (htrim : ∀ tun dev, P dev → P (scullTrim tun dev).1)
    (hread : ∀ dev dev' pos count ch e, ReadOutcome dev pos count ch dev' e → P dev → P dev')
    (hwrite : ∀ dev dev' pos data ch e, pos + data.length < 2 ^ 63 →
      WriteOutcome stale dev pos data ch dev' e → P dev → P dev')
    (hs : ∀ i, P (s.devices i)) : ∀ i, P (t.devices i) := by
  cases h with
  | openInterrupted | opened | readInterrupted | writeInterrupted | ioctl => exact hs
  | trimmed i ch => exact forall_update hs (htrim s.tun _ (hs i))
  | read i pos count ch dev next e _ _ _ hstep =>
      exact forall_update hs
        (hread _ _ pos count ch e (scull_read_outcome (hshaped i) hstep) (hs i))
  | write i pos data ch dev next e _ _ hpos hstep =>
      exact forall_update hs
        (hwrite _ _ pos data ch e hpos (scull_write_outcome (hshaped i) hstep) (hs i))

/-- Every step keeps the arrays in shape. -/
theorem MemStep.shaped (h : MemStep stale s a e t) (hs : s.Shaped) : t.Shaped := by
  refine h.forall_devices (P := fun dev => ArraysFit dev.qset dev.qsetLen) hs ?_ ?_ ?_ hs
  · intro tun dev _
    simp [scullTrim, ArraysFit]
  · exact fun _ _ _ _ _ _ hread hdev => hread.arrays hdev
  · exact fun _ _ _ _ _ _ _ hwrite hdev => hwrite.arrays hdev

end MemState

end Ldd3.Scull
