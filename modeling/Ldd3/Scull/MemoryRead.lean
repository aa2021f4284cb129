import Ldd3.Scull.MemoryPosition

/-!
# Reads only observe

`scull_read` finds its node with `__scull_follow`, which allocates the nodes that are missing. What
keeps a read from allocating is an invariant of the devices: the list has a node for every offset
below `len`. Writes grow the list before they grow `len`, also writes of no bytes and writes that
fail half-way, and a trim empties both. With it `scull_read_observes` says that a read leaves the
module as it is and does not depend on the allocator.
-/

namespace Ldd3.Scull

variable {β : Type} {dev dev' : ScullDev β} {pos : Nat} {e : MemEffect β} {ch : MemChoice β}

/-- The walk to a node that is there changes nothing. -/
theorem scull_follow_of_lt (alloc : Nat → Bool) {n : Nat} {nodes : List (ScullQset β)} (next : Nat)
    (h : n < nodes.length) : scullFollow alloc n nodes next = (nodes, next) := by
  induction n generalizing nodes with
  | zero =>
      cases nodes with
      | nil => simp at h
      | cons node rest => rfl
  | succ n ih =>
      cases nodes with
      | nil => simp at h
      | cons node rest =>
          have hrest : n < rest.length := by simpa using h
          simp only [scullFollow, ih hrest]

/-- The walk to a node drops none. -/
theorem scull_follow_length_le (alloc : Nat → Bool) (n : Nat) (nodes : List (ScullQset β))
    (next : Nat) : nodes.length ≤ (scullFollow alloc n nodes next).1.length := by
  induction n generalizing nodes next with
  | zero => cases nodes <;> simp [scullFollow]
  | succ n ih =>
      cases nodes with
      | nil => simp
      | cons node rest => simpa [scullFollow] using ih rest next

/-- A write drops no node, whatever becomes of it. -/
theorem scull_write_length_le {stale : Nat → Nat → β} {data : List β} {next next' : Nat}
    (h : scullWrite stale dev pos data ch next = (dev', next', e)) :
    dev.qset.length ≤ dev'.qset.length := by
  have hfollow := scull_follow_length_le ch.alloc (dev.position pos).qsetP dev.qset next
  unfold scullWrite at h
  split at h
  · cases h
    exact le_rfl
  · simp only at h
    split at h
    · cases h
      exact hfollow
    · split at h
      · cases h
        exact hfollow
      · split at h
        · cases h
          simpa [putData] using hfollow
        · split at h <;> cases h <;> simpa [putData] using hfollow

/-- The list has a node for every offset below `len`. -/
def Spans (dev : ScullDev β) : Prop := dev.len ≤ dev.totalLen * dev.qset.length

/-- The node of an offset below `len` is there. -/
theorem Spans.node_lt (h : Spans dev) (hpos : pos < dev.len) :
    (dev.position pos).qsetP < dev.qset.length :=
  Nat.div_lt_of_lt_mul (hpos.trans_le h)

/-- A longer list spans as much. -/
theorem Spans.grow (h : Spans dev) {nodes : List (ScullQset β)}
    (hlength : dev.qset.length ≤ nodes.length) : Spans { dev with qset := nodes } :=
  h.trans (Nat.mul_le_mul_left _ hlength)

/-- A quantum does not reach into the next node. -/
theorem Sized.end_le (h : Sized dev.quantumLen dev.qsetLen) {n : Nat}
    (hn : n ≤ dev.quantumLen - (dev.position pos).offsetP) :
    pos + n ≤ dev.totalLen * ((dev.position pos).qsetP + 1) := by
  have hparts := h.parts pos
  obtain ⟨hslot, hoff⟩ := position_lt (Nat.ne_of_gt h.total_len_pos) pos
  have hquantum : ((dev.position pos).quantumP + 1) * dev.quantumLen ≤
      dev.quantumLen * dev.qsetLen := by
    rw [Nat.mul_comm]
    exact Nat.mul_le_mul_left _ hslot
  rw [h.total_len, Nat.mul_comm, Nat.add_one_mul]
  rw [Nat.add_one_mul] at hquantum
  omega

/-- A write keeps a node for every offset below `len`. -/
theorem Spans.write {stale : Nat → Nat → β} {data : List β} {next next' : Nat} (h : Spans dev)
    (hsized : Sized dev.quantumLen dev.qsetLen) (harrays : ArraysFit dev.qset dev.qsetLen)
    (hwrite : scullWrite stale dev pos data ch next = (dev', next', e)) :
    Spans dev' ∧ dev'.stuck = dev.stuck := by
  have hlength := scull_write_length_le hwrite
  cases scull_write_outcome harrays hwrite with
  | oops hzero => exact absurd hzero (Nat.ne_of_gt hsized.total_len_pos)
  | noMemory nodes => exact ⟨h.grow hlength, rfl⟩
  | faulted nodes => exact ⟨h.grow hlength, rfl⟩
  | stored nodes quantum n _ _ _ hn hset =>
      refine ⟨?_, rfl⟩
      -- the slot that was filled belongs to a node of the new list
      have hslot := hset.slots (dev.position pos).qsetP (dev.position pos).quantumP
      rw [if_pos ⟨rfl, rfl⟩] at hslot
      have hnode : (dev.position pos).qsetP < nodes.length := by
        by_contra hout
        have hnone : nodes[(dev.position pos).qsetP]? = none :=
          List.getElem?_eq_none_iff.mpr (Nat.le_of_not_lt hout)
        simp [slotAt, hnone] at hslot
      have hnew : pos + n ≤ dev.totalLen * nodes.length :=
        (hsized.end_le (by omega)).trans (Nat.mul_le_mul_left _ hnode)
      exact max_le (h.grow hlength) hnew

/-- The file position advances by the result of the call, and stays if the call fails. -/
def Advances (pos : Nat) (e : MemEffect β) : Prop :=
  (∃ n, e.ret = .done n ∧ e.fPos = some (pos + n)) ∨
    (e.ret = .failed .EFAULT ∨ e.ret = .failed .ERESTARTSYS) ∧ e.fPos = some pos

/-- A read of a device with a node for every offset below `len` changes nothing, and shows the same
whatever the allocator would do. -/
theorem Spans.read (h : Spans dev) (hsized : Sized dev.quantumLen dev.qsetLen) (pos count : Nat)
    (ch : MemChoice β) (next : Nat) :
    ∃ e, (∀ alloc, scullRead dev pos count { ch with alloc := alloc } next = (dev, next, e)) ∧
      Advances pos e := by
  have htotal := Nat.ne_of_gt hsized.total_len_pos
  unfold scullRead
  by_cases hend : pos ≥ dev.len
  · simp only [if_pos hend]
    exact ⟨_, fun _ => rfl, .inl ⟨0, rfl, rfl⟩⟩
  · have hnode := h.node_lt (Nat.lt_of_not_le hend)
    simp only [if_neg hend, if_neg htotal, scull_follow_of_lt _ _ hnode]
    split
    · exact ⟨_, fun _ => rfl, .inl ⟨0, rfl, rfl⟩⟩
    · split
      · exact ⟨_, fun _ => rfl, .inr ⟨.inl rfl, rfl⟩⟩
      · exact ⟨_, fun _ => rfl, .inl ⟨_, rfl, rfl⟩⟩

namespace MemState

variable {stale : Nat → Nat → β} {s t : MemState β} {a : MemAction β}

/-- No device is stuck, and each has a node for every offset below its `len`. -/
def Spanned (s : MemState β) : Prop :=
  ∀ i, (s.devices i).stuck = false ∧ Spans (s.devices i)

/-- The module starts with empty devices. -/
theorem spanned_init (tun : Tunables) (nrDevs : Nat) : (init tun nrDevs : MemState β).Spanned :=
  fun _ => ⟨rfl, Nat.zero_le _⟩

/-- Every step on devices of a sized geometry keeps the nodes in place. -/
theorem MemStep.spanned (h : MemStep stale s a e t) (hshaped : s.Shaped)
    (hsized : ∀ i < s.nrDevs, s.DevSized i) (hs : s.Spanned) : t.Spanned := by
  cases h with
  | openInterrupted | opened | readInterrupted | writeInterrupted | ioctl => exact hs
  | trimmed i ch =>
      exact forall_update (P := fun dev => dev.stuck = false ∧ Spans dev) hs
        ⟨(hs i).1, Nat.zero_le _⟩
  | read i pos count ch dev next e _ hi _ hread =>
      obtain ⟨e', hsame, -⟩ := (hs i).2.read (hsized i hi) pos count ch s.next
      cases hread.symm.trans (hsame ch.alloc)
      exact forall_update (P := fun dev => dev.stuck = false ∧ Spans dev) hs (hs i)
  | write i pos data ch dev next e _ hi _ hwrite =>
      obtain ⟨hspans, hstuck⟩ := (hs i).2.write (hsized i hi) (hshaped i) hwrite
      exact forall_update (P := fun dev => dev.stuck = false ∧ Spans dev) hs
        ⟨hstuck.trans (hs i).1, hspans⟩

/-- Reads only observe. In every state of a run from module load in which the devices always have
a sized geometry, a read returns and leaves the whole module as it is: no node is allocated, and
the nodes, the pointer arrays, the quanta, `len` and the geometry of every device stay. It shows
the same whatever the allocator would have done, and `*f_pos` advances by exactly its result, or
stays if it fails. -/
theorem scull_read_observes (stale : Nat → Nat → β) (tun : Tunables) (nrDevs : Nat)
    (actions : List (MemAction β))
    (hsized : ∀ t, Machine.Visits (step stale) (init tun nrDevs) actions t →
      ∀ i < t.nrDevs, t.DevSized i)
    {t : MemState β} (ht : Machine.Visits (step stale) (init tun nrDevs) actions t)
    {i pos count : Nat} (hi : i < t.nrDevs) (hpos : pos + count < 2 ^ 63) (ch : MemChoice β) :
    ∃ e, t.step stale (.read i pos count ch) = some (t, e) ∧
      (∀ alloc, t.step stale (.read i pos count { ch with alloc := alloc }) = some (t, e)) ∧
      Advances pos e := by
  have hinv : t.Shaped ∧ t.Spanned := by
    refine ht.invariant_of_guard (I := fun t => t.Shaped ∧ t.Spanned)
      (G := fun t _ _ _ => ∀ i < t.nrDevs, t.DevSized i) ?_
      ⟨shaped_init tun nrDevs, spanned_init tun nrDevs⟩
      (fun u a e v htake => hsized u htake.source)
    rintro u a e v ⟨hshaped, hspanned⟩ hguard hstep
    have hs := mem_step_sound hstep
    exact ⟨hs.shaped hshaped, hs.spanned hshaped hguard hspanned⟩
  obtain ⟨hstuck, hspans⟩ := hinv.2 i
  suffices h : ∃ e, (∀ alloc,
      t.step stale (.read i pos count { ch with alloc := alloc }) = some (t, e)) ∧
      Advances pos e by
    obtain ⟨e, hsame, hadvances⟩ := h
    exact ⟨e, hsame ch.alloc, hsame, hadvances⟩
  simp only [step, if_pos hpos, locked, if_pos hi, hstuck]
  cases hintr : ch.intr with
  | true => exact ⟨_, fun _ => rfl, .inr ⟨.inr rfl, rfl⟩⟩
  | false =>
      obtain ⟨e, hsame, hadvances⟩ := hspans.read (hsized t ht i hi) pos count ch t.next
      rw [hintr] at hsame
      refine ⟨e, fun alloc => ?_, hadvances⟩
      simp [hsame alloc]

/-- Quanta of four bytes, two to a set: a write of no bytes at offset nine, then one at offset three
whose array cannot be allocated. -/
def writeNothing : List (MemAction UInt8) :=
  [.openDev 0 .wronly {}, .write 0 9 [] {}, .write 0 3 [1] { alloc := fun _ => false }]

/-- A read at offset three then finds two nodes and `len` nine, and changes nothing. -/
theorem scull_read_observes_hole :
    ∃ t, Machine.Visits (step fun _ _ => 0) (init ⟨4, 2, 4000⟩ 1) writeNothing t ∧
      (t.devices 0).len = 9 ∧ (t.devices 0).qset.length = 2 ∧
      ∃ e, t.step (fun _ _ => 0) (.read 0 3 10 {}) = some (t, e) ∧ Advances 3 e := by
  refine ⟨_, .later rfl (.later rfl (.later rfl (.here _ []))), rfl, rfl, ?_⟩
  have hsized : ∀ t, Machine.Visits (step fun _ _ => 0) (init ⟨4, 2, 4000⟩ 1) writeNothing t →
      ∀ i < t.nrDevs, t.DevSized i := by
    have hone : Sized 4 2 := ⟨by decide, by decide, by decide⟩
    have hzero : ∀ {t : MemState UInt8}, t.nrDevs = 1 → t.DevSized 0 →
        ∀ i < t.nrDevs, t.DevSized i := by
      intro t hdevs hdev i hi
      obtain rfl : i = 0 := by omega
      exact hdev
    refine Machine.forall_visits_cons rfl (hzero rfl hone)
      (Machine.forall_visits_cons rfl (hzero rfl hone) ?_)
    exact Machine.forall_visits_cons rfl (hzero rfl hone)
      (Machine.forall_visits_nil (hzero rfl hone))
  obtain ⟨e, hstep, -, hadvances⟩ := scull_read_observes (fun _ _ => 0) ⟨4, 2, 4000⟩ 1 writeNothing
    hsized (.later rfl (.later rfl (.later rfl (.here _ [])))) (Nat.zero_lt_one)
    (by decide : 3 + 10 < 2 ^ 63) {}
  exact ⟨e, hstep, hadvances⟩

end MemState

end Ldd3.Scull
