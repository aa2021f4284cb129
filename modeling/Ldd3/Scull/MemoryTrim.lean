import Ldd3.Ledger
import Ldd3.Scull.MemoryBounds

/-!
# What a trim frees

A device owns its nodes, their pointer arrays and the quanta the pointers lead to. Reads and writes
add to them, also those that fail half-way, and a trim has to give all of them back.
`__scull_trim` hands `qset_len - 1` pointers of an array to `kmem_cache_free_bulk`, so the quantum
in the last slot is lost.

The machine is run together with a ledger of the objects allocated for each device since its last
trim. `trim_frees_ledger_iff` says which trims free what the ledger lists: those that find no
quantum in a last slot.
-/

namespace Ldd3.Scull

open Ledger

variable {β : Type}

/-- The objects that belong to a node: its quanta, its array and itself. -/
def ScullQset.objects (node : ScullQset β) : List Nat :=
  match node.data with
  | some array => array.slots.filterMap (fun slot => slot.map Quantum.id) ++ [array.id, node.id]
  | none => [node.id]

/-- The objects that belong to a list of nodes. -/
def objects (nodes : List (ScullQset β)) : List Nat := nodes.flatMap ScullQset.objects

/-- The walk to a node adds the nodes it allocates. -/
theorem scull_follow_adds (alloc : Nat → Bool) (n : Nat) (nodes : List (ScullQset β)) (next : Nat) :
    Adds (objects nodes) next (objects (scullFollow alloc n nodes next).1)
      (scullFollow alloc n nodes next).2 := by
  have hnew : Adds [] next (objects [(⟨next, none⟩ : ScullQset β)]) (next + 1) := .one (.refl _)
  induction n generalizing nodes next with
  | zero =>
      cases nodes with
      | nil =>
          simp only [scullFollow]
          split
          · exact hnew
          · exact .of_perm (.refl _)
      | cons node rest => exact .of_perm (.refl _)
  | succ n ih =>
      cases nodes with
      | nil =>
          simp only [scullFollow]
          split
          · exact hnew.trans ((ih [] (next + 1) (.one (.refl _))).append_left [next])
          · exact .of_perm (.refl _)
      | cons node rest => exact (ih rest next hnew).append_left node.objects

/-- The quanta of an array after one slot got a quantum. -/
theorem quanta_put {array : QuantumArray β} {j : Nat} {old : Option (Quantum β)}
    {quantum : Quantum β} {more : List Nat} (hold : array.slots[j]? = some old)
    (hid : [quantum.id] = (old.map Quantum.id).toList ++ more) :
    ((array.put j quantum).slots.filterMap (fun slot => slot.map Quantum.id)).Perm
      (array.slots.filterMap (fun slot => slot.map Quantum.id) ++ more) := by
  rw [List.filterMap_eq_flatMap_toList, List.filterMap_eq_flatMap_toList]
  refine flatMap_set_perm hold ?_
  rw [← hid]
  exact .refl _

/-- The objects of a node follow the quanta of its array. -/
theorem objects_perm {node : ScullQset β} {array array' : QuantumArray β} {more : List Nat}
    (hid : array'.id = array.id)
    (h : (array'.slots.filterMap (fun slot => slot.map Quantum.id)).Perm
      (array.slots.filterMap (fun slot => slot.map Quantum.id) ++ more)) :
    ({ node with data := some array' } : ScullQset β).objects.Perm
      (({ node with data := some array } : ScullQset β).objects ++ more) := by
  simp only [ScullQset.objects, hid, List.append_assoc]
  refine (h.append_right _).trans ?_
  rw [List.append_assoc]
  exact List.perm_append_comm.append_left _

/-- A node gets its array from the allocator or has one. -/
theorem alloc_data_adds {alloc : Nat → Bool} {nodes : List (ScullQset β)}
    {qsetLen i next next' : Nat} {node : ScullQset β} {array : QuantumArray β}
    (hnode : nodes[i]? = some node) (h : allocData alloc qsetLen node next = (some array, next')) :
    Adds (objects nodes) next (objects (putData nodes i node array)) next' := by
  unfold allocData at h
  split at h
  · rename_i hdata
    cases h
    have hsame : ({ node with data := some array } : ScullQset β) = node := by rw [← hdata]
    have hperm : (objects (putData nodes i node array)).Perm (objects nodes ++ []) :=
      flatMap_set_perm hnode (by rw [hsame, List.append_nil])
    exact .of_perm (by simpa using hperm)
  · rename_i hdata
    split at h
    · cases h
      refine .one (flatMap_set_perm hnode ?_)
      simpa [ScullQset.objects, hdata] using List.Perm.swap node.id next []
    · cases h

/-- Without an array nothing has been allocated for the node. -/
theorem alloc_data_eq_none {alloc : Nat → Bool} {qsetLen next next' : Nat} {node : ScullQset β}
    (h : allocData alloc qsetLen node next = (none, next')) : next' = next := by
  unfold allocData at h
  split at h
  · cases h
  · split at h <;> cases h
    rfl

/-- A slot gets its quantum from the cache or has one; what the quantum contains does not matter. -/
theorem alloc_quantum_adds {stale : Nat → Nat → β} {alloc : Nat → Bool} {nodes : List (ScullQset β)}
    {i j next next' : Nat} {node : ScullQset β} {array : QuantumArray β} {quantum : Quantum β}
    (hnode : nodes[i]? = some node) (hj : j < array.slots.length)
    (h : allocQuantum stale alloc array j next = (some quantum, next')) (bytes : Nat → β) :
    Adds (objects (putData nodes i node array)) next
      (objects (putData nodes i node (array.put j { quantum with bytes := bytes }))) next' := by
  have hlt := (List.getElem?_eq_some_iff.mp hnode).1
  have hput : ∀ array', putData nodes i node array' =
      (putData nodes i node array).set i { node with data := some array' } := by
    intro array'
    simp [putData]
  have hhere : (putData nodes i node array)[i]? = some { node with data := some array } := by
    simp [putData, hlt]
  have hadd : ∀ more, [quantum.id] = (array.slots[j].map Quantum.id).toList ++ more →
      (objects (putData nodes i node (array.put j { quantum with bytes := bytes }))).Perm
        (objects (putData nodes i node array) ++ more) := by
    intro more hid
    rw [hput (array.put j _)]
    exact flatMap_set_perm hhere
      (objects_perm rfl (quanta_put (List.getElem?_eq_getElem hj) hid))
  unfold allocQuantum at h
  rw [List.getElem?_eq_getElem hj, Option.join_some] at h
  split at h
  · rename_i hold
    cases h
    exact .of_perm (by simpa using hadd [] (by simp [hold]))
  · rename_i hold
    split at h
    · cases h
      exact .one (hadd _ (by simp [hold]))
    · cases h

/-- Without a quantum nothing has been allocated for the slot. -/
theorem alloc_quantum_eq_none {stale : Nat → Nat → β} {alloc : Nat → Bool} {array : QuantumArray β}
    {j next next' : Nat} (h : allocQuantum stale alloc array j next = (none, next')) :
    next' = next := by
  unfold allocQuantum at h
  split at h
  · cases h
  · split at h <;> cases h
    rfl

/-- A read adds the nodes it allocates. -/
theorem scull_read_adds {dev dev' : ScullDev β} {pos count next next' : Nat} {ch : MemChoice β}
    {e : MemEffect β} (h : scullRead dev pos count ch next = (dev', next', e)) :
    Adds (objects dev.qset) next (objects dev'.qset) next' := by
  unfold scullRead at h
  split at h
  · cases h
    exact .of_perm (.refl _)
  · simp only at h
    split at h
    · cases h
      exact .of_perm (.refl _)
    · split at h
      · cases h
        exact scull_follow_adds _ _ _ _
      · split at h <;> cases h <;> exact scull_follow_adds _ _ _ _

/-- A write adds the nodes, the array and the quantum it allocates, whether it succeeds or not. -/
theorem scull_write_adds {stale : Nat → Nat → β} {dev dev' : ScullDev β} {pos next next' : Nat}
    {data : List β} {ch : MemChoice β} {e : MemEffect β}
    (harrays : ArraysFit dev.qset dev.qsetLen)
    (h : scullWrite stale dev pos data ch next = (dev', next', e)) :
    Adds (objects dev.qset) next (objects dev'.qset) next' := by
  unfold scullWrite at h
  split at h
  · cases h
    exact .of_perm (.refl _)
  · rename_i hne
    have hfollow := scull_follow_adds ch.alloc (dev.position pos).qsetP dev.qset next
    have hsame := scull_follow_same_slots ch.alloc dev.qsetLen (dev.position pos).qsetP next harrays
    simp only at h
    split at h
    · cases h
      exact hfollow
    · rename_i node hnode
      split at h
      · rename_i next₁ hdata
        cases h
        rw [alloc_data_eq_none hdata]
        exact hfollow
      · rename_i array next₁ hdata
        have harray := hfollow.trans (alloc_data_adds hnode hdata)
        have hlength := (alloc_data_eq_some hsame.arrays hnode hdata).1
        split at h
        · rename_i next₂ hquantum
          cases h
          rw [alloc_quantum_eq_none hquantum]
          exact harray
        · rename_i quantum next₂ hquantum
          have hlt : (dev.position pos).quantumP < array.slots.length :=
            hlength ▸ (position_lt hne pos).1
          split at h <;> cases h <;>
            exact harray.trans (alloc_quantum_adds hnode hlt hquantum _)

/-- No pointer array has a quantum from index `qset_len - 1` on. -/
def LastSlotsEmpty (dev : ScullDev β) : Prop :=
  ∀ n j, sizeSub dev.qsetLen 1 ≤ j → slotAt dev.qset n j = none

/-- A trim frees no object of a node that is not one of its own, and none twice. -/
theorem freed_node_sublist (qsetLen : Nat) (node : ScullQset β) :
    (freedNode qsetLen node).Sublist node.objects := by
  unfold freedNode ScullQset.objects
  cases node.data with
  | none => exact .refl _
  | some array => exact ((List.take_sublist _ _).filterMap _).append (.refl _)

/-- No quantum is left behind `n` slots if all slots from there on are empty, and only then. -/
theorem quanta_take_eq_iff (slots : List (Option (Quantum β))) (n : Nat) :
    (slots.take n).filterMap (fun slot => slot.map Quantum.id) =
        slots.filterMap (fun slot => slot.map Quantum.id) ↔
      ∀ j, n ≤ j → slots[j]?.join = none := by
  have hsplit : slots.filterMap (fun slot => slot.map Quantum.id) =
      (slots.take n).filterMap (fun slot => slot.map Quantum.id) ++
        (slots.drop n).filterMap (fun slot => slot.map Quantum.id) := by
    rw [← List.filterMap_append, List.take_append_drop]
  rw [hsplit, List.self_eq_append_right, List.filterMap_eq_nil_iff]
  constructor
  · intro h j hj
    cases hslot : slots[j]? with
    | none => rfl
    | some slot =>
        have hmem : slot ∈ slots.drop n := by
          refine List.mem_iff_getElem?.mpr ⟨j - n, ?_⟩
          rw [List.getElem?_drop, Nat.add_sub_cancel' hj, hslot]
        simpa using h slot hmem
  · intro h slot hmem
    obtain ⟨j, hj⟩ := List.mem_iff_getElem?.mp hmem
    rw [List.getElem?_drop] at hj
    have hnone := h (n + j) (Nat.le_add_right n j)
    rw [hj, Option.join_some] at hnone
    rw [hnone, Option.map_none]

/-- All objects of a node are freed if the slots past those handed to `kmem_cache_free_bulk` are
empty, and only then. -/
theorem freed_node_eq_iff (qsetLen : Nat) (node : ScullQset β) :
    freedNode qsetLen node = node.objects ↔
      ∀ array, node.data = some array → ∀ j, sizeSub qsetLen 1 ≤ j →
        array.slots[j]?.join = none := by
  unfold freedNode ScullQset.objects
  cases node.data with
  | none => simp
  | some array => simp [quanta_take_eq_iff]

/-- The last slots are empty if those of every node are. -/
theorem last_slots_empty_iff (dev : ScullDev β) :
    LastSlotsEmpty dev ↔ ∀ node ∈ dev.qset, ∀ array, node.data = some array →
      ∀ j, sizeSub dev.qsetLen 1 ≤ j → array.slots[j]?.join = none := by
  constructor
  · intro h node hmem array hdata j hj
    obtain ⟨n, hn⟩ := List.mem_iff_getElem?.mp hmem
    simpa [slotAt, hn, hdata] using h n j hj
  · intro h n j hj
    unfold slotAt
    cases hn : dev.qset[n]? with
    | none => rfl
    | some node =>
        cases hdata : node.data with
        | none => simp [hdata]
        | some array =>
            simpa [hdata] using h node (List.mem_of_getElem? hn) array hdata j hj

/-- A trim frees all objects of its device if it finds the last slots empty, and only then. -/
theorem scull_trim_perm_iff (tun : Tunables) (dev : ScullDev β) :
    (scullTrim tun dev).2.Perm (objects dev.qset) ↔ LastSlotsEmpty dev := by
  rw [last_slots_empty_iff]
  simp only [← freed_node_eq_iff]
  constructor
  · intro hperm
    exact eq_of_length_flatMap (freed_node_sublist dev.qsetLen) hperm.length_eq
  · intro hall
    have heq : (scullTrim tun dev).2 = objects dev.qset := List.flatMap_congr hall
    rw [heq]

namespace MemState

/-- The objects allocated for each device since its last trim, after one more call. -/
def ledgerStep (s t : MemState β) (owned : Nat → List Nat) : MemAction β → Nat → List Nat
  | .openDev i mode ch =>
      if mode = .wronly ∧ ch.intr = false then Function.update owned i [] else owned
  | .read i _ _ _ | .write i _ _ _ =>
      Function.update owned i (owned i ++ List.range' s.next (t.next - s.next))
  | .ioctl _ _ _ => owned

/-- The machine together with the ledger of the devices. -/
def ledger (stale : Nat → Nat → β) (s : MemState β × (Nat → List Nat)) (a : MemAction β) :
    Option ((MemState β × (Nat → List Nat)) × MemEffect β) :=
  (s.1.step stale a).map fun r => ((r.1, ledgerStep s.1 r.1 s.2 a), r.2)

/-- Every device owns what the ledger lists for it, and no object is listed twice. -/
structure Balanced (s : MemState β) (owned : Nat → List Nat) : Prop where
  shaped : s.Shaped
  perm : ∀ i, (objects (s.devices i).qset).Perm (owned i)
  nodup : ∀ i, (owned i).Nodup
  lt : ∀ i, ∀ id ∈ owned i, id < s.next

theorem balanced_init (tun : Tunables) (nrDevs : Nat) :
    Balanced (init tun nrDevs : MemState β) fun _ => [] :=
  ⟨shaped_init tun nrDevs, fun _ => .refl _, fun _ => List.nodup_nil, by simp⟩

variable {stale : Nat → Nat → β} {s t : MemState β} {a : MemAction β} {e : MemEffect β}
  {owned : Nat → List Nat}

/-- A device and its ledger change together; what the ledger lists are different objects. -/
theorem Balanced.update (h : Balanced s owned) {i next : Nat} {dev : ScullDev β} {ids : List Nat}
    (hle : s.next ≤ next) (hshaped : ArraysFit dev.qset dev.qsetLen)
    (hperm : (objects dev.qset).Perm ids) (hids : ids.Nodup ∧ ∀ id ∈ ids, id < next) :
    Balanced { s with devices := Function.update s.devices i dev, next := next }
      (Function.update owned i ids) := by
  refine ⟨forall_update (P := fun dev => ArraysFit dev.qset dev.qsetLen) h.shaped hshaped,
    fun j => ?_, fun j => ?_, fun j id hid => ?_⟩
  · by_cases heq : j = i
    · simpa [heq] using hperm
    · simpa [heq] using h.perm j
  · by_cases heq : j = i
    · simpa [heq] using hids.1
    · simpa [heq] using h.nodup j
  · by_cases heq : j = i
    · exact hids.2 id (by simpa [heq] using hid)
    · exact (h.lt j id (by simpa [heq] using hid)).trans_le hle

/-- A device that adds to its objects stays in balance with its ledger. -/
theorem Balanced.adds (h : Balanced s owned) {i next : Nat} {dev : ScullDev β}
    (hadds : Adds (objects (s.devices i).qset) s.next (objects dev.qset) next)
    (hshaped : ArraysFit dev.qset dev.qsetLen) :
    Balanced { s with devices := Function.update s.devices i dev, next := next }
      (Function.update owned i (owned i ++ List.range' s.next (next - s.next))) := by
  have hlisted : Adds (owned i) s.next (owned i ++ List.range' s.next (next - s.next)) next :=
    ⟨hadds.le, .refl _⟩
  exact h.update hadds.le hshaped (hadds.perm.trans ((h.perm i).append_right _))
    (hlisted.nodup (h.nodup i) (h.lt i))

/-- Every call keeps the devices in balance with the ledger. -/
theorem MemStep.balanced (hstep : MemStep stale s a e t) (h : Balanced s owned) :
    Balanced t (ledgerStep s t owned a) := by
  have hshaped := hstep.shaped h.shaped
  cases hstep with
  | openInterrupted i ch hintr => simpa [ledgerStep, hintr] using h
  | opened i mode ch hmode => simpa [ledgerStep, hmode] using h
  | ioctl => exact ⟨h.shaped, h.perm, h.nodup, h.lt⟩
  | readInterrupted | writeInterrupted => simpa [ledgerStep] using h
  | trimmed i ch hintr =>
      simp only [ledgerStep, hintr, and_self, if_true]
      exact h.update le_rfl (by simp [scullTrim, ArraysFit]) (.refl _) (by simp)
  | read i pos count ch dev next e _ _ _ hread =>
      exact h.adds (scull_read_adds hread) (by simpa using hshaped i)
  | write i pos data ch dev next e _ _ _ hwrite =>
      exact h.adds (scull_write_adds (h.shaped i) hwrite) (by simpa using hshaped i)

/-- Only a trim frees anything. -/
theorem MemStep.freed_eq_nil (hstep : MemStep stale s a e t) (ha : a.trims = false)
    (hs : s.Shaped) : e.freed = [] := by
  cases hstep with
  | openInterrupted | opened | readInterrupted | writeInterrupted | ioctl => rfl
  | trimmed i ch hintr => simp [MemAction.trims, hintr] at ha
  | read i pos count ch dev next e _ _ _ hread => cases scull_read_outcome (hs i) hread <;> rfl
  | write i pos data ch dev next e _ _ _ hwrite => cases scull_write_outcome (hs i) hwrite <;> rfl

/-- What a trim of device `i` frees and leaves: every object that was allocated for the device since
its last trim, once, and nothing else, and the device is empty. -/
structure TrimsAll (i : Nat) (owned : List Nat) (e : MemEffect β) (t : MemState β) : Prop where
  freed : e.freed.Perm owned
  once : e.freed.Nodup
  qset : (t.devices i).qset = []
  len : (t.devices i).len = 0

/-- In every run from module load only trims free anything, and a trim frees every object that was
allocated for its device since the last trim exactly once, and nothing else, and leaves the device
empty, exactly when it finds no quantum in the last slot of a pointer array. -/
theorem trim_frees_ledger_iff (stale : Nat → Nat → β) (tun : Tunables) (nrDevs : Nat)
    (actions : List (MemAction β)) (s t : MemState β × (Nat → List Nat)) (a : MemAction β)
    (e : MemEffect β)
    (h : Machine.Takes (ledger stale) (init tun nrDevs, fun _ => []) actions s a e t) :
    (a.trims = false → e.freed = []) ∧
      ∀ i ch, a = .openDev i .wronly ch → ch.intr = false →
        (TrimsAll i (s.2 i) e t.1 ↔ LastSlotsEmpty (s.1.devices i)) := by
  have hbalanced : Balanced s.1 s.2 := by
    refine h.source.invariant (I := fun s => Balanced s.1 s.2) ?_ (balanced_init tun nrDevs)
    intro s a e t hs hstep
    obtain ⟨r, hr, heq⟩ := Option.map_eq_some_iff.mp hstep
    cases heq
    exact (mem_step_sound hr).balanced hs
  obtain ⟨r, hr, heq⟩ := Option.map_eq_some_iff.mp h.step_eq
  cases heq
  have hstep := mem_step_sound hr
  refine ⟨fun ha => hstep.freed_eq_nil ha hbalanced.shaped, ?_⟩
  rintro i ch rfl hintr
  obtain ⟨t, e⟩ := r
  cases hstep with
  | openInterrupted _ _ htrue => cases hintr.symm.trans htrue
  | opened _ _ _ hmode => exact absurd rfl hmode
  | trimmed =>
      have hperm := hbalanced.perm i
      rw [← scull_trim_perm_iff s.1.tun]
      constructor
      · intro hall
        exact hall.freed.trans hperm.symm
      · intro hfreed
        have hlisted := hfreed.trans hperm
        exact ⟨hlisted, hlisted.nodup_iff.mpr (hbalanced.nodup i), by simp [scullTrim],
          by simp [scullTrim]⟩

/-- One byte is written at position zero, and the device is trimmed. -/
def writeAndTrim : List (MemAction UInt8) := [.write 0 0 [7] {}, .openDev 0 .wronly {}]

/-- With two slots in an array the quantum is not in the last one. -/
theorem trim_frees_ledger_two_slots :
    ∃ s t e, Machine.Takes (ledger fun _ _ => 0) (init ⟨4, 2, 4000⟩ 1, fun _ => []) writeAndTrim s
      (.openDev 0 .wronly {}) e t ∧ s.2 0 = [0, 1, 2] ∧ TrimsAll 0 (s.2 0) e t.1 := by
  have htake : ∃ s t e, Machine.Takes (ledger fun _ _ => 0) (init ⟨4, 2, 4000⟩ 1, fun _ => [])
      writeAndTrim s (.openDev 0 .wronly {}) e t ∧ s.2 0 = [0, 1, 2] ∧
      (s.1.devices 0).qsetLen = 2 ∧
      (s.1.devices 0).qset = [⟨0, some ⟨1, [some ⟨2, store (fun _ => 0) 0 [7]⟩, none]⟩⟩] :=
    ⟨_, _, _, .later rfl (.here _ rfl), rfl, rfl, rfl⟩
  obtain ⟨s, t, e, htake, howned, hqsetLen, hqset⟩ := htake
  have hempty : LastSlotsEmpty (s.1.devices 0) := by
    rw [last_slots_empty_iff, hqset, hqsetLen]
    rintro node hmem array hdata j hj
    obtain rfl := List.mem_singleton.mp hmem
    cases hdata
    have hone : 1 ≤ j := hj
    obtain ⟨k, rfl⟩ := Nat.exists_eq_add_of_le' hone
    cases k <;> rfl
  refine ⟨s, t, e, htake, howned, ?_⟩
  obtain ⟨-, htrims⟩ := trim_frees_ledger_iff _ _ _ _ s t _ e htake
  exact (htrims 0 {} rfl rfl).mpr hempty

/-- With one slot in an array the trim frees the array and the node, and not the quantum. -/
theorem trim_loses_last_quantum :
    ∃ s t e, Machine.Takes (ledger fun _ _ => 0) (init ⟨4, 1, 4000⟩ 1, fun _ => []) writeAndTrim s
      (.openDev 0 .wronly {}) e t ∧ s.2 0 = [0, 1, 2] ∧ e.freed = [1, 0] ∧
      ¬ TrimsAll 0 (s.2 0) e t.1 := by
  refine ⟨_, _, _, .later rfl (.here _ rfl), rfl, rfl, fun hall => ?_⟩
  have hlength := hall.freed.length_eq
  exact absurd hlength (by decide)

end MemState

end Ldd3.Scull
