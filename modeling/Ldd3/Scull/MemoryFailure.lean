import Ldd3.Scull.MemoryPosition

/-!
# Writes that fail

A write of the memory device can fail for want of a node, of an array or of a quantum, and in its
user copy, which goes straight into the quantum. `shows` is what a read delivers as a function of
the device, and `failed_write_hidden_iff` compares it before and after: want of memory is never
seen, and a copy that fails is seen exactly when a read can reach a byte it has changed, or reaches
into the quantum that was allocated for it.
-/

namespace Ldd3.Scull

variable {β : Type} {dev dev' : ScullDev β} {e : MemEffect β} {ch : MemChoice β}

/-- What a reader sees of a call: the bytes, the result and the file position after it. -/
def MemEffect.seen (e : MemEffect β) : List β × MemRet × Option Nat := (e.got, e.ret, e.fPos)

/-- The number of bytes a read of `count` bytes at `pos` copies out of a quantum. -/
def ScullDev.readLen (dev : ScullDev β) (pos count : Nat) : Nat :=
  min (min count (dev.len - pos)) (dev.quantumLen - (dev.position pos).offsetP)

/-- What a reader sees of a read of `count` bytes at `pos`. -/
def ScullDev.shows (dev : ScullDev β) (pos count : Nat) (fault : Bool) :
    List β × MemRet × Option Nat :=
  if dev.len ≤ pos then ([], .done 0, some pos)
  else if dev.totalLen = 0 then ([], .oops, some pos)
  else
    match slotAt dev.qset (dev.position pos).qsetP (dev.position pos).quantumP with
    | none => ([], .done 0, some pos)
    | some quantum =>
        if fault then ([], .failed .EFAULT, some pos)
        else
          (slice quantum.bytes (dev.position pos).offsetP (dev.readLen pos count),
            .done (dev.readLen pos count), some (pos + dev.readLen pos count))

/-- A read shows what the device shows; the nodes it may allocate do not matter. -/
theorem scull_read_shows (harrays : ArraysFit dev.qset dev.qsetLen) (pos count next : Nat)
    (ch : MemChoice β) :
    (scullRead dev pos count ch next).2.2.seen = dev.shows pos count ch.fault := by
  have hfollow := (scull_follow_same_slots ch.alloc dev.qsetLen (dev.position pos).qsetP next
    harrays).slots (dev.position pos).qsetP (dev.position pos).quantumP
  unfold scullRead ScullDev.shows
  by_cases hend : dev.len ≤ pos
  · rw [if_pos hend, if_pos hend]
    rfl
  · rw [if_neg hend, if_neg hend]
    by_cases hzero : dev.totalLen = 0
    · simp only [if_pos hzero]
      rfl
    · have hcount : (if pos + count > dev.len then dev.len - pos else count) =
          min count (dev.len - pos) := by
        split <;> omega
      simp only [if_neg hzero, hcount]
      cases hslot : slotAt dev.qset (dev.position pos).qsetP (dev.position pos).quantumP with
      | none =>
          rw [hslot, slotAt] at hfollow
          simp only [hfollow]
          rfl
      | some quantum =>
          rw [hslot, slotAt] at hfollow
          simp only [hfollow]
          split <;> rfl

/-- Devices of one geometry and length that agree on the slot of a position show the same there. -/
theorem shows_congr {nodes : List (ScullQset β)} {pos : Nat}
    (h : slotAt nodes (dev.position pos).qsetP (dev.position pos).quantumP =
      slotAt dev.qset (dev.position pos).qsetP (dev.position pos).quantumP)
    (count : Nat) (fault : Bool) :
    ({ dev with qset := nodes } : ScullDev β).shows pos count fault =
      dev.shows pos count fault := by
  have hposition : ({ dev with qset := nodes } : ScullDev β).position pos = dev.position pos := rfl
  unfold ScullDev.shows
  rw [hposition, h]
  rfl

/-- What a device with other nodes shows of a quantum in them. -/
theorem shows_of_slot {nodes : List (ScullQset β)} {pos : Nat} {quantum : Quantum β}
    (hlt : pos < dev.len) (hzero : dev.totalLen ≠ 0)
    (hslot : slotAt nodes (dev.position pos).qsetP (dev.position pos).quantumP = some quantum)
    (count : Nat) (fault : Bool) :
    ({ dev with qset := nodes } : ScullDev β).shows pos count fault =
      if fault then ([], .failed .EFAULT, some pos)
      else
        (slice quantum.bytes (dev.position pos).offsetP (dev.readLen pos count),
          .done (dev.readLen pos count), some (pos + dev.readLen pos count)) := by
  have hposition : ({ dev with qset := nodes } : ScullDev β).position pos = dev.position pos := rfl
  have htotal : ({ dev with qset := nodes } : ScullDev β).totalLen ≠ 0 := hzero
  rw [ScullDev.shows, if_neg (Nat.not_le_of_lt hlt), if_neg htotal, hposition, hslot]
  rfl

/-- A read can reach offset `off` of the quantum in slot `j` of node `i`: one that starts before the
end of the device, in that slot and not after that offset. -/
def Readable (dev : ScullDev β) (i j off : Nat) : Prop :=
  off < dev.quantumLen ∧ ∃ x, (dev.position x).qsetP = i ∧ (dev.position x).quantumP = j ∧
    (dev.position x).offsetP ≤ off ∧ x + (off - (dev.position x).offsetP) < dev.len

/-- The bytes of a quantum after the failed copy of a write. -/
def spoiltBytes (dev : ScullDev β) (pos : Nat) (data : List β) (ch : MemChoice β)
    (bytes : Nat → β) : Nat → β :=
  spoil bytes (dev.position pos).offsetP
    (min data.length (dev.quantumLen - (dev.position pos).offsetP)) ch.spoilt

/-- A failed copy of a write at `pos` can be seen: a read can reach an offset of its quantum, and
either the quantum was not there before or the copy has changed the byte at that offset. -/
def Exposes (dev : ScullDev β) (pos : Nat) (data : List β) (ch : MemChoice β) : Prop :=
  ∃ off, Readable dev (dev.position pos).qsetP (dev.position pos).quantumP off ∧
    ∀ quantum, slotAt dev.qset (dev.position pos).qsetP (dev.position pos).quantumP = some quantum →
      spoiltBytes dev pos data ch quantum.bytes off ≠ quantum.bytes off

section FailedCopy

variable {stale : Nat → Nat → β} {pos : Nat} {data : List β} {nodes : List (ScullQset β)}
  {quantum : Quantum β}

/-- The start of a read is readable. -/
theorem readable_start {x : Nat} (hzero : dev.totalLen ≠ 0) (hlt : x < dev.len) :
    Readable dev (dev.position x).qsetP (dev.position x).quantumP (dev.position x).offsetP :=
  ⟨(position_lt hzero x).2, x, rfl, rfl, le_rfl, by omega⟩

/-- The bytes of a read are readable. -/
theorem readable_of_read {x count k : Nat} (hk : k < dev.readLen x count) :
    Readable dev (dev.position x).qsetP (dev.position x).quantumP
      ((dev.position x).offsetP + k) := by
  unfold ScullDev.readLen at hk
  exact ⟨by omega, x, rfl, rfl, by omega, by omega⟩

/-- What a failed copy does not expose stays in the slot. -/
theorem same_byte_of_not_exposes (hhidden : ¬ Exposes dev pos data ch) {off : Nat}
    (hread : Readable dev (dev.position pos).qsetP (dev.position pos).quantumP off) :
    ∃ old, slotAt dev.qset (dev.position pos).qsetP (dev.position pos).quantumP = some old ∧
      spoiltBytes dev pos data ch old.bytes off = old.bytes off := by
  by_contra hnone
  refine hhidden ⟨off, hread, fun old hold hsame => hnone ⟨old, hold, hsame⟩⟩

/-- A failed copy that exposes nothing changes no read. -/
theorem shows_of_not_exposes
    (hworks : WorksWith stale dev.qset (dev.position pos).qsetP (dev.position pos).quantumP quantum)
    (hset : SlotSet dev.qset nodes dev.qsetLen (dev.position pos).qsetP (dev.position pos).quantumP
      { quantum with bytes := spoiltBytes dev pos data ch quantum.bytes })
    (hzero : dev.totalLen ≠ 0) (hhidden : ¬ Exposes dev pos data ch) (x count : Nat)
    (fault : Bool) :
    ({ dev with qset := nodes } : ScullDev β).shows x count fault = dev.shows x count fault := by
  by_cases hsame : (dev.position x).qsetP = (dev.position pos).qsetP ∧
      (dev.position x).quantumP = (dev.position pos).quantumP
  · rcases Nat.lt_or_ge x dev.len with hlt | hend
    · -- the read starts in the quantum of the copy, which was there before
      have hstart := readable_start hzero hlt
      rw [hsame.1, hsame.2] at hstart
      obtain ⟨old, hold, -⟩ := same_byte_of_not_exposes hhidden hstart
      obtain rfl : quantum = old := by
        rcases hworks with hsome | ⟨hnone, -⟩
        · exact Option.some.inj (hsome.symm.trans hold)
        · simp [hnone] at hold
      have hnew := hset.slots (dev.position x).qsetP (dev.position x).quantumP
      rw [if_pos hsame] at hnew
      rw [← hsame.1, ← hsame.2] at hold
      have hshows : dev.shows x count fault = _ := shows_of_slot hlt hzero hold count fault
      have hbytes : slice (spoiltBytes dev pos data ch quantum.bytes) (dev.position x).offsetP
          (dev.readLen x count) =
          slice quantum.bytes (dev.position x).offsetP (dev.readLen x count) := by
        refine List.map_congr_left fun k hk => ?_
        have hread := readable_of_read (List.mem_range.mp hk)
        rw [hsame.1, hsame.2] at hread
        obtain ⟨old, hold', hbyte⟩ := same_byte_of_not_exposes hhidden hread
        rw [← hsame.1, ← hsame.2, hold] at hold'
        cases hold'
        exact hbyte
      rw [shows_of_slot hlt hzero hnew count fault, hshows, hbytes]
    · unfold ScullDev.shows
      rw [if_pos hend, if_pos hend]
  · refine shows_congr ?_ count fault
    rw [hset.slots, if_neg hsame]

/-- A failed copy that exposes something changes a read before the end of the device. -/
theorem exists_shows_ne (hzero : dev.totalLen ≠ 0)
    (hset : SlotSet dev.qset nodes dev.qsetLen (dev.position pos).qsetP (dev.position pos).quantumP
      { quantum with bytes := spoiltBytes dev pos data ch quantum.bytes })
    (hworks : WorksWith stale dev.qset (dev.position pos).qsetP (dev.position pos).quantumP quantum)
    (h : Exposes dev pos data ch) :
    ∃ x count, x + count ≤ dev.len ∧
      ({ dev with qset := nodes } : ScullDev β).shows x count false ≠ dev.shows x count false := by
  obtain ⟨off, ⟨hoff, x, hnode, hslot, hle, hlt⟩, hchanged⟩ := h
  have hxlt : x < dev.len := by omega
  have hnew := hset.slots (dev.position x).qsetP (dev.position x).quantumP
  rw [if_pos ⟨hnode, hslot⟩] at hnew
  -- a read from there that ends with the byte at `off`
  refine ⟨x, off - (dev.position x).offsetP + 1, by omega, fun heq => ?_⟩
  have hlen : dev.readLen x (off - (dev.position x).offsetP + 1) =
      off - (dev.position x).offsetP + 1 := by
    unfold ScullDev.readLen
    omega
  rw [shows_of_slot hxlt hzero hnew, if_neg Bool.false_ne_true, hlen] at heq
  rcases hworks with hsome | ⟨hnone, -⟩
  · have hold := hsome
    rw [← hnode, ← hslot] at hold
    have hshows : dev.shows x (off - (dev.position x).offsetP + 1) false = _ :=
      shows_of_slot hxlt hzero hold _ false
    rw [hshows, if_neg Bool.false_ne_true, hlen] at heq
    have hgot := congrArg (fun r => r.1[off - (dev.position x).offsetP]?) heq
    simp only [getElem?_slice, if_pos (Nat.lt_succ_self _), Nat.add_sub_cancel' hle] at hgot
    exact hchanged quantum hsome (Option.some.inj hgot)
  · rw [← hnode, ← hslot] at hnone
    rw [ScullDev.shows, if_neg (Nat.not_le_of_lt hxlt), if_neg hzero, hnone] at heq
    have hret := congrArg (fun r => r.2.1) heq
    cases hret

end FailedCopy

namespace MemState

variable {stale : Nat → Nat → β} {s t : MemState β} {a : MemAction β}

/-- What a reader sees of a read of `count` bytes at `pos` of device `i`, if the read returns. -/
def sees (stale : Nat → Nat → β) (s : MemState β) (i pos count : Nat) (ch : MemChoice β) :
    Option (List β × MemRet × Option Nat) :=
  (s.step stale (.read i pos count ch)).map fun r => r.2.seen

/-- A read that is not interrupted shows what its device shows, unless the device is stuck. -/
theorem sees_eq (hs : s.Shaped) (i pos count : Nat) (ch : MemChoice β) :
    s.sees stale i pos count ch =
      if pos + count < 2 ^ 63 ∧ i < s.nrDevs then
        if ch.intr then some ([], .failed .ERESTARTSYS, some pos)
        else if (s.devices i).stuck then none
        else some ((s.devices i).shows pos count ch.fault)
      else none := by
  simp only [sees, step]
  by_cases hpos : pos + count < 2 ^ 63
  · by_cases hi : i < s.nrDevs
    · rw [if_pos hpos, locked, if_pos hi, if_pos (And.intro hpos hi)]
      cases ch.intr with
      | true => rfl
      | false =>
          cases (s.devices i).stuck with
          | true => rfl
          | false => exact congrArg some (scull_read_shows (hs i) pos count s.next ch)
    · rw [if_pos hpos, locked, if_neg hi, if_neg (fun h => hi h.2)]
      rfl
  · rw [if_neg hpos, if_neg (fun h => hpos h.1)]
    rfl

/-- The devices end before the positions that the file layer refuses. -/
def LenFits (s : MemState β) : Prop := ∀ i, (s.devices i).len < 2 ^ 63

/-- Every step keeps the devices from growing beyond them. -/
theorem MemStep.len_fits (h : MemStep stale s a e t) (hshaped : s.Shaped) (hs : s.LenFits) :
    t.LenFits := by
  refine h.forall_devices (P := fun dev => dev.len < 2 ^ 63) hshaped ?_ ?_ ?_ hs
  · intro tun dev _
    exact Nat.two_pow_pos 63
  · intro dev dev' pos count ch e hread hdev
    cases hread with
    | atEnd | oops | hole | faulted | copied => exact hdev
  · intro dev dev' pos data ch e hpos hwrite hdev
    cases hwrite with
    | oops | noMemory | faulted => exact hdev
    | stored nodes quantum n _ _ _ hn => exact max_lt hdev (by omega)

/-- Two states that differ in one device, and not in its length or whether it is stuck, look the
same to all readers if and only if the device does. -/
theorem sees_update_iff {i next : Nat} {dev : ScullDev β} (hs : s.Shaped)
    (ht : ({ s with devices := Function.update s.devices i dev, next := next } :
      MemState β).Shaped) (hi : i < s.nrDevs) (hlive : (s.devices i).stuck = false)
    (hstuck : dev.stuck = false) :
    (∀ j pos count ch,
        ({ s with devices := Function.update s.devices i dev, next := next } :
          MemState β).sees stale j pos count ch = s.sees stale j pos count ch) ↔
      ∀ pos count fault, pos + count < 2 ^ 63 →
        dev.shows pos count fault = (s.devices i).shows pos count fault := by
  constructor
  · intro h pos count fault hpos
    have hread := h i pos count { fault := fault }
    rw [sees_eq ht, sees_eq hs, if_pos (And.intro hpos hi), if_pos (And.intro hpos hi)] at hread
    simpa [hlive, hstuck] using hread
  · intro h j pos count ch
    rw [sees_eq ht, sees_eq hs]
    by_cases hj : j = i
    · subst hj
      by_cases hpos : pos + count < 2 ^ 63
      · simp [hlive, hstuck, h pos count ch.fault hpos]
      · rw [if_neg (fun h => hpos h.1), if_neg (fun h => hpos h.1)]
    · simp [hj]

/-- A device whose lock a write gets is not stuck. -/
theorem live_of_write {i pos : Nat} {data : List β} {ch : MemChoice β}
    (h : s.step stale (.write i pos data ch) = some (t, e)) (hintr : ch.intr = false) :
    (s.devices i).stuck = false := by
  cases hstuck : (s.devices i).stuck with
  | false => rfl
  | true => simp [step, locked, hintr, hstuck] at h

/-- Writes that fail. In every run from module load, a write that returns `-ENOMEM` or `-EFAULT`
leaves `*f_pos` and the lengths of all devices as they were. Every read of any device then returns
what it would have returned before, except in one case: the user copy has failed and exposes a byte
of its quantum. -/
theorem failed_write_hidden_iff (stale : Nat → Nat → β) (tun : Tunables) (nrDevs : Nat)
    (actions : List (MemAction β)) {s t : MemState β} {i pos : Nat} {data : List β}
    {ch : MemChoice β} {e : MemEffect β}
    (htake : Machine.Takes (step stale) (init tun nrDevs) actions s (.write i pos data ch) e t)
    (hret : e.ret = .failed .ENOMEM ∨ e.ret = .failed .EFAULT) :
    e.fPos = some pos ∧ (∀ j, (t.devices j).len = (s.devices j).len) ∧
      ((∀ j x count ch', t.sees stale j x count ch' = s.sees stale j x count ch') ↔
        (e.ret = .failed .EFAULT → ¬ Exposes (s.devices i) pos data ch)) := by
  have hinv : s.Shaped ∧ s.LenFits := by
    refine htake.source.invariant (I := fun s => s.Shaped ∧ s.LenFits) ?_
      ⟨shaped_init tun nrDevs, fun _ => Nat.two_pow_pos 63⟩
    rintro u a e v ⟨hshaped, hlen⟩ hstep
    have hs := mem_step_sound hstep
    exact ⟨hs.shaped hshaped, hs.len_fits hshaped hlen⟩
  obtain ⟨hshaped, hlen⟩ := hinv
  have hs := mem_step_sound htake.step_eq
  have ht := hs.shaped hshaped
  cases hs with
  | writeInterrupted => rcases hret with hret | hret <;> cases hret
  | write _ _ _ _ dev next _ hintr hi hpos hwrite =>
      have hlive := live_of_write htake.step_eq hintr
      have hsame : ∀ nodes, ∀ j, (Function.update s.devices i
          { s.devices i with qset := nodes } j).len = (s.devices j).len := by
        intro nodes j
        by_cases hj : j = i
        · subst hj
          simp
        · simp [hj]
      cases scull_write_outcome (hshaped i) hwrite with
      | oops => rcases hret with hret | hret <;> cases hret
      | stored => rcases hret with hret | hret <;> cases hret
      | noMemory nodes hslots =>
          refine ⟨rfl, hsame nodes, ?_⟩
          rw [sees_update_iff hshaped ht hi hlive hlive]
          refine iff_of_true (fun x count fault _ => ?_) (fun h => by cases h)
          exact shows_congr (hslots.slots _ _) count fault
      | faulted nodes quantum n hne _ hworks hn hset =>
          subst hn
          refine ⟨rfl, hsame nodes, ?_⟩
          rw [sees_update_iff hshaped ht hi hlive hlive]
          constructor
          · intro hshows _ hexposes
            obtain ⟨x, count, hle, hdiffers⟩ := exists_shows_ne hne hset hworks hexposes
            exact hdiffers (hshows x count false (hle.trans_lt (hlen i)))
          · intro hhidden x count fault _
            exact shows_of_not_exposes hworks hset hne (hhidden rfl) x count fault

/-- A write to an empty device whose copy fails after one byte. -/
def faultAtStart : List (MemAction UInt8) :=
  [.write 0 0 [1, 2] { fault := true, spoilt := fun k => if k = 0 then some 9 else none }]

/-- The device is still empty, and no read sees the byte. -/
theorem failed_write_hidden_empty :
    ∃ s a e t, Machine.Takes (step fun _ _ => 0) (init ⟨4, 2, 4000⟩ 1) faultAtStart s a e t ∧
      e.ret = .failed .EFAULT ∧
      ∀ j x count ch, t.sees (fun _ _ => 0) j x count ch = s.sees (fun _ _ => 0) j x count ch := by
  refine ⟨_, _, _, _, .here [] rfl, rfl, ?_⟩
  refine (failed_write_hidden_iff (fun _ _ => 0) ⟨4, 2, 4000⟩ 1 faultAtStart (.here [] rfl)
    (.inr rfl)).2.2.mpr ?_
  rintro - ⟨off, ⟨-, x, -, -, -, hlt⟩, -⟩
  exact absurd hlt (Nat.not_lt_zero _)

/-- The same write after one that has stored two bytes. -/
def faultOverData : List (MemAction UInt8) := .write 0 0 [3, 4] {} :: faultAtStart

/-- A reader of the first byte sees it change. -/
theorem failed_write_shown :
    ¬ ∀ (stale : Nat → Nat → UInt8) (tun : Tunables) (nrDevs : Nat)
        (actions : List (MemAction UInt8)) (s t : MemState UInt8) (i pos : Nat) (data : List UInt8)
        (ch : MemChoice UInt8) (e : MemEffect UInt8),
      Machine.Takes (step stale) (init tun nrDevs) actions s (.write i pos data ch) e t →
      e.ret = .failed .ENOMEM ∨ e.ret = .failed .EFAULT →
      ∀ j x count ch', t.sees stale j x count ch' = s.sees stale j x count ch' := by
  intro h
  have hread := h (fun _ _ => 0) ⟨4, 2, 4000⟩ 1 faultOverData _ _ _ _ _ _ _
    (.later rfl (.here [] rfl)) (.inr rfl) 0 0 1 {}
  have hbyte := congrArg (Option.map Prod.fst) hread
  exact absurd hbyte (by decide)

end MemState

end Ldd3.Scull
