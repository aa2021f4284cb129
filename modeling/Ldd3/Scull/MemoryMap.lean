import Ldd3.WriteLog
import Ldd3.Scull.MemoryMachine
import Ldd3.Scull.MemoryBounds

/-!
# The memory device as a flat sparse map

A device splits a file offset into node, slot and quantum offset. `position_eq` turns the two
divisions of `__scull_follow` into the block number of the offset, so that two offsets share a
quantum exactly when they share a block. `StoresLog` relates a device to the log of the writes
since its last trim, and `scull_refines_flat_map` says what a reader and a writer see of it after
any run.
-/

namespace Ldd3.Scull

open WriteLog

variable {β : Type}

/-- A geometry a device works with: quanta that fit the objects of the cache, and a set length
that is not zero, with a product that fits in 64 bits. -/
structure Geometry (objSize quantum qset : Nat) : Prop where
  quantum_pos : 1 ≤ quantum
  quantum_le : quantum ≤ objSize
  qset_pos : 1 ≤ qset
  product_lt : quantum * qset < 2 ^ 64

/-- In a good geometry, an offset is split into block number and offset in the block, and the
block number into node and slot. -/
theorem position_eq {dev : ScullDev β} {objSize : Nat}
    (h : Geometry objSize dev.quantumLen dev.qsetLen) (x : Nat) :
    dev.position x = ⟨x / dev.quantumLen / dev.qsetLen, x / dev.quantumLen % dev.qsetLen,
      x % dev.quantumLen⟩ := by
  have htotal : dev.totalLen = dev.quantumLen * dev.qsetLen := Nat.mod_eq_of_lt h.product_lt
  simp only [ScullDev.position, htotal, ScullFollow.mk.injEq]
  exact ⟨(Nat.div_div_eq_div_mul _ _ _).symm, Nat.mod_mul_right_div_self _ _ _,
    Nat.mod_mul_right_mod _ _ _⟩

/-- Node and slot determine the block number. -/
theorem block_eq_of_slot {x y s : Nat} (hnode : x / s = y / s) (hslot : x % s = y % s) : x = y := by
  rw [← Nat.div_add_mod x s, ← Nat.div_add_mod y s, hnode, hslot]

/-- The offsets of a range that stays in one block. -/
theorem block_of_range {x pos q : Nat} (hlow : pos ≤ x) (hhigh : x < pos + (q - pos % q)) :
    x / q = pos / q ∧ x % q = pos % q + (x - pos) := by
  have hq : 0 < q := by
    rcases Nat.eq_zero_or_pos q with rfl | hq
    · simp at hhigh
      omega
    · exact hq
  have hpos := Nat.div_add_mod pos q
  have hlt := Nat.mod_lt pos hq
  have hx : x = pos % q + (x - pos) + q * (pos / q) := by omega
  constructor
  · rw [hx, Nat.add_mul_div_left _ _ hq, Nat.div_eq_of_lt (by omega), Nat.zero_add]
  · conv_lhs => rw [hx]
    rw [Nat.add_mul_mod_self_left, Nat.mod_eq_of_lt (by omega)]

/-- The device stores what the log says, and ends where the log ends. -/
structure StoresLog (objSize : Nat) (dev : ScullDev β) (log : List (Nat × List β)) : Prop where
  live : dev.stuck = false
  geometry : Geometry objSize dev.quantumLen dev.qsetLen
  arrays : ArraysFit dev.qset dev.qsetLen
  len : dev.len = extent log
  bytes : ∀ x b, byteAt log x = some b → ∃ quantum,
    slotAt dev.qset (dev.position x).qsetP (dev.position x).quantumP = some quantum ∧
      quantum.bytes (dev.position x).offsetP = b

variable {objSize : Nat} {dev dev' : ScullDev β} {log : List (Nat × List β)} {e : MemEffect β}

/-- The division in `__scull_follow` is defined. -/
theorem StoresLog.total_len_ne (h : StoresLog objSize dev log) : dev.totalLen ≠ 0 := by
  have hpos : 0 < dev.quantumLen * dev.qsetLen :=
    Nat.mul_pos h.geometry.quantum_pos h.geometry.qset_pos
  rw [ScullDev.totalLen, Nat.mod_eq_of_lt h.geometry.product_lt]
  omega

/-- Empty nodes do not matter to the map. -/
theorem StoresLog.same_slots (h : StoresLog objSize dev log) {nodes : List (ScullQset β)}
    (hsame : SameSlots dev.qset nodes dev.qsetLen) :
    StoresLog objSize { dev with qset := nodes } log := by
  refine ⟨h.live, h.geometry, hsame.arrays, h.len, fun x b hb => ?_⟩
  obtain ⟨quantum, hslot, hbyte⟩ := h.bytes x b hb
  exact ⟨quantum, (hsame.slots _ _).trans hslot, hbyte⟩

/-- A read leaves the map alone. -/
theorem StoresLog.read {pos count : Nat} {ch : MemChoice β} (h : StoresLog objSize dev log)
    (hread : ReadOutcome dev pos count ch dev' e) : StoresLog objSize dev' log := by
  cases hread with
  | atEnd => exact h
  | oops hzero => exact absurd hzero h.total_len_ne
  | hole nodes _ _ hsame => exact h.same_slots hsame
  | faulted nodes n _ hsame => exact h.same_slots hsame
  | copied nodes quantum n _ _ hsame => exact h.same_slots hsame

/-- A stored run of bytes is one more write in the log. -/
theorem StoresLog.store {stale : Nat → Nat → β} {pos n : Nat} {data : List β}
    {nodes : List (ScullQset β)} {quantum : Quantum β} (h : StoresLog objSize dev log)
    (hworks : WorksWith stale dev.qset (dev.position pos).qsetP (dev.position pos).quantumP quantum)
    (hn : n = min data.length (dev.quantumLen - (dev.position pos).offsetP))
    (hset : SlotSet dev.qset nodes dev.qsetLen (dev.position pos).qsetP (dev.position pos).quantumP
      { quantum with bytes := store quantum.bytes (dev.position pos).offsetP (data.take n) }) :
    StoresLog objSize { dev with qset := nodes, len := max dev.len (pos + n) }
      (log ++ [(pos, data.take n)]) := by
  have hlength : (data.take n).length = n := by simp [hn]
  refine ⟨h.live, h.geometry, hset.arrays, ?_, fun x b hb => ?_⟩
  · rw [extent_append, hlength, ← h.len]
  · rw [byte_at_append, hlength] at hb
    show ∃ quantum', slotAt nodes (dev.position x).qsetP (dev.position x).quantumP = some quantum' ∧
      quantum'.bytes (dev.position x).offsetP = b
    simp only [hset.slots]
    simp only [position_eq h.geometry] at hn ⊢
    split at hb
    · -- the byte is one of those just written, and lies in the block of `pos`
      rename_i hin
      obtain ⟨hblock, hoff⟩ := block_of_range (q := dev.quantumLen) hin.1 (by omega)
      refine ⟨_, if_pos ⟨by rw [hblock], by rw [hblock]⟩, ?_⟩
      show Ldd3.store _ _ _ _ = b
      have hlt : x - pos < (data.take n).length := by omega
      rw [hoff, store_inside _ _ hlt]
      exact Option.some.inj ((List.getElem?_eq_getElem hlt).symm.trans hb)
    · rename_i hout
      obtain ⟨old, hslot, hbyte⟩ := h.bytes x b hb
      simp only [position_eq h.geometry] at hslot hbyte hworks
      split
      · -- another byte of the same quantum: the write worked with that quantum and spared it
        rename_i hsame
        have hblock := block_eq_of_slot hsame.1 hsame.2
        rw [hblock] at hslot
        have heq : quantum = old := by
          rcases hworks with hsome | ⟨hnone, -⟩
          · exact Option.some.inj (hsome.symm.trans hslot)
          · simp [hnone] at hslot
        subst heq
        refine ⟨_, rfl, ?_⟩
        show Ldd3.store _ _ _ _ = b
        rw [store_outside, hbyte]
        rw [hlength]
        have hx := Nat.div_add_mod x dev.quantumLen
        have hpos := Nat.div_add_mod pos dev.quantumLen
        rw [hblock] at hx
        omega
      · exact ⟨old, hslot, hbyte⟩

/-- A trimmed device is empty, with the geometry of the tunables. -/
theorem stores_log_trim {tun : Tunables} (h : Geometry objSize tun.scullQuantum tun.scullQset)
    (hlive : dev.stuck = false) : StoresLog objSize (scullTrim tun dev).1 [] :=
  ⟨hlive, h, by simp [scullTrim, ArraysFit], rfl, fun x b hb => by cases hb⟩

/-- What a read without a fault delivers: nothing from the end of the log on, and from a written
byte on as many bytes as asked for, up to the end of the log and of the quantum, with every
written byte among them as it was written. -/
theorem StoresLog.read_spec {pos count : Nat} {ch : MemChoice β} (h : StoresLog objSize dev log)
    (hfault : ch.fault = false) (hread : ReadOutcome dev pos count ch dev' e) :
    (extent log ≤ pos → e.ret = .done 0 ∧ e.got = [] ∧ e.fPos = some pos) ∧
      ∀ b, byteAt log pos = some b → ∀ n,
        n = min (min count (dev.len - pos)) (dev.quantumLen - pos % dev.quantumLen) →
        e.ret = .done n ∧ e.fPos = some (pos + n) ∧ e.got.length = n ∧
          ∀ j < n, ∀ c, byteAt log (pos + j) = some c → e.got[j]? = some c := by
  have hposition := position_eq h.geometry
  cases hread with
  | atEnd hend =>
      refine ⟨fun _ => ⟨rfl, rfl, rfl⟩, fun b hb => ?_⟩
      have hlt := lt_extent_of_byte_at hb
      rw [← h.len] at hlt
      omega
  | oops hzero => exact absurd hzero h.total_len_ne
  | faulted nodes n _ _ htrue => simp [hfault] at htrue
  | hole nodes hlt _ _ hnone =>
      refine ⟨fun _ => ⟨rfl, rfl, rfl⟩, fun b hb => ?_⟩
      obtain ⟨quantum, hslot, -⟩ := h.bytes pos b hb
      simp [hnone] at hslot
  | copied nodes quantum m hlt _ _ _ hslot hm =>
      refine ⟨fun hend => absurd hlt (by rw [h.len]; omega), fun b hb n hn => ?_⟩
      obtain rfl : m = n := by rw [hm, hn, hposition]
      refine ⟨rfl, rfl, length_slice _ _ _, fun j hj c hc => ?_⟩
      obtain ⟨other, hother, hbyte⟩ := h.bytes (pos + j) c hc
      obtain ⟨hblock, hoff⟩ :=
        block_of_range (q := dev.quantumLen) (Nat.le_add_right pos j) (by omega)
      simp only [hposition] at hother hbyte hslot
      rw [hblock, hslot] at hother
      cases hother
      rw [hoff, Nat.add_sub_cancel_left] at hbyte
      simp [slice, hj, hposition, hbyte]

/-- A write of the first `n` bytes of `data`, on top of a log. -/
theorem byte_at_take (log : List (Nat × List β)) {n : Nat} {data : List β} (pos : Nat)
    (hn : n ≤ data.length) (x : Nat) :
    byteAt (log ++ [(pos, data.take n)]) x =
      if pos ≤ x ∧ x < pos + n then data[x - pos]? else byteAt log x := by
  rw [byte_at_append, List.length_take, Nat.min_eq_left hn]
  split
  · rename_i hin
    exact List.getElem?_take_of_lt (by omega)
  · rfl

/-- The writes to device `i` that succeeded since its last trim, after one more call. -/
def logStep (i : Nat) (log : List (Nat × List β)) (call : MemAction β × MemEffect β) :
    List (Nat × List β) :=
  match call with
  | (.openDev j .wronly _, { ret := .done _, .. }) => if j = i then [] else log
  | (.write j pos data _, { ret := .done n, .. }) =>
      if j = i then log ++ [(pos, data.take n)] else log
  | _ => log

/-- The writes to device `i` that succeeded since its last trim, with their positions and the
bytes they stored, oldest first. -/
def writesSinceTrim (i : Nat) (history : List (MemAction β × MemEffect β)) :
    List (Nat × List β) :=
  history.foldl (logStep i) []

theorem writes_since_trim_append (i : Nat) (history : List (MemAction β × MemEffect β))
    (call : MemAction β × MemEffect β) :
    writesSinceTrim i (history ++ [call]) = logStep i (writesSinceTrim i history) call := by
  simp [writesSinceTrim, List.foldl_append]

/-- The user copy of the call faults. -/
def MemAction.faults : MemAction β → Bool
  | openDev _ _ _ | ioctl _ _ _ => false
  | read _ _ _ ch | write _ _ _ ch => ch.fault

namespace MemState

/-- No user copy faults, and a trim happens while the tunables are a good geometry. -/
def InScope (s : MemState β) (a : MemAction β) : Prop :=
  a.faults = false ∧
    (a.trims = true → Geometry s.objSize s.tun.scullQuantum s.tun.scullQset)

/-- Every device stores what the history says was written to it since its last trim. -/
def StoresHistory (s : MemState β) (history : List (MemAction β × MemEffect β)) : Prop :=
  ∀ i, StoresLog s.objSize (s.devices i) (writesSinceTrim i history)

variable {stale : Nat → Nat → β} {s t : MemState β} {a : MemAction β}
  {history : List (MemAction β × MemEffect β)}

/-- At module load nothing has been written. -/
theorem stores_history_init {tun : Tunables}
    (h : Geometry tun.scullQuantum tun.scullQuantum tun.scullQset) (nrDevs : Nat) :
    (init tun nrDevs : MemState β).StoresHistory [] :=
  fun _ => ⟨rfl, h, by simp [init, ArraysFit], rfl, fun x b hb => by cases hb⟩

/-- A device is replaced by one that stores the log after the call, and the call is none of the
others' logs. -/
theorem stores_history_update {i next : Nat} {call : MemAction β × MemEffect β}
    (h : s.StoresHistory history)
    (hdev : StoresLog s.objSize dev (logStep i (writesSinceTrim i history) call))
    (hother : ∀ j, j ≠ i → logStep j (writesSinceTrim j history) call = writesSinceTrim j history) :
    StoresHistory { s with devices := Function.update s.devices i dev, next := next }
      (history ++ [call]) := by
  intro j
  rw [writes_since_trim_append]
  by_cases heq : j = i
  · subst heq
    simpa using hdev
  · rw [hother j heq]
    simpa [heq] using h j

/-- Every call keeps the devices in step with the history. -/
theorem MemStep.stores_history (hstep : MemStep stale s a e t) (hscope : s.InScope a)
    (h : s.StoresHistory history) : t.StoresHistory (history ++ [(a, e)]) := by
  have hquiet : (∀ i log, logStep i log (a, e) = log) →
      s.StoresHistory (history ++ [(a, e)]) := by
    intro hlog i
    rw [writes_since_trim_append, hlog]
    exact h i
  cases hstep with
  | openInterrupted | readInterrupted | writeInterrupted => exact hquiet fun _ _ => rfl
  | ioctl =>
      intro i
      rw [writes_since_trim_append]
      exact h i
  | opened i mode ch hmode =>
      refine hquiet fun j log => ?_
      cases mode with
      | wronly => exact absurd rfl hmode
      | rdonly | rdwr => rfl
  | trimmed i ch hintr =>
      refine stores_history_update h ?_ fun j hj => if_neg (Ne.symm hj)
      rw [logStep, if_pos rfl]
      exact stores_log_trim (hscope.2 (by simp [MemAction.trims, hintr])) (h i).live
  | read i pos count ch dev next e _ _ _ hread =>
      exact stores_history_update h ((h i).read (scull_read_outcome (h i).arrays hread))
        fun _ _ => rfl
  | write i pos data ch dev next e _ _ _ hwrite =>
      cases scull_write_outcome (h i).arrays hwrite with
      | oops hzero => exact absurd hzero (h i).total_len_ne
      | noMemory nodes hsame =>
          exact stores_history_update h ((h i).same_slots hsame) fun _ _ => rfl
      | faulted nodes quantum n _ htrue =>
          have hfalse : ch.fault = false := hscope.1
          simp [hfalse] at htrue
      | stored nodes quantum n _ _ hworks hn hset =>
          refine stores_history_update h ?_ fun j hj => if_neg (Ne.symm hj)
          rw [logStep, if_pos rfl]
          exact (h i).store hworks hn hset

/-- A write that succeeds stores as many bytes as the quantum has room for, and is one more write
in the log of its device. -/
theorem MemStep.write_spec {i pos n : Nat} {data : List β} {ch : MemChoice β}
    (hstep : MemStep stale s (.write i pos data ch) e t) (h : s.StoresHistory history)
    (hret : e.ret = .done n) :
    n = min data.length ((s.devices i).quantumLen - pos % (s.devices i).quantumLen) ∧
      e.fPos = some (pos + n) ∧
      ∀ j x, byteAt (writesSinceTrim j (history ++ [(.write i pos data ch, e)])) x =
        if j = i ∧ pos ≤ x ∧ x < pos + n then data[x - pos]?
        else byteAt (writesSinceTrim j history) x := by
  have hlog := h i
  cases hstep with
  | writeInterrupted => cases hret
  | write _ _ _ _ dev next _ _ _ _ hwrite =>
      cases scull_write_outcome hlog.arrays hwrite with
      | oops | noMemory | faulted => cases hret
      | stored nodes quantum m _ _ _ hm =>
          cases hret
          rw [position_eq hlog.geometry] at hm
          refine ⟨hm, rfl, fun j x => ?_⟩
          rw [writes_since_trim_append, logStep]
          by_cases hj : j = i
          · subst hj
            rw [if_pos rfl, byte_at_take _ _ (by omega)]
            simp only [true_and]
          · rw [if_neg (Ne.symm hj), if_neg (by simp [hj])]

/-- The memory devices refine flat sparse byte maps. After every run from module load whose calls
are in scope, `len` is the largest end of a successful write since the last trim. A write
returns, and if it succeeds it stores as many bytes as the quantum has room for, at its
position, and changes no other byte of any device's map. A read that is not interrupted returns
nothing from `len` on, and from a written byte on it returns as many bytes as asked for, up to
`len` and the end of the quantum, every byte that was written since the last trim as it was
written. -/
theorem scull_refines_flat_map (stale : Nat → Nat → β) (tun : Tunables) (nrDevs : Nat)
    (hload : Geometry tun.scullQuantum tun.scullQuantum tun.scullQset)
    (actions : List (MemAction β)) {final : MemState β} {es : List (MemEffect β)}
    (hrun : Machine.run (step stale) (init tun nrDevs) actions = some (final, es))
    (hscope : ∀ t a e t', Machine.Takes (step stale) (init tun nrDevs) actions t a e t' →
      t.InScope a) (i : Nat) (hi : i < final.nrDevs) :
    (final.devices i).len = extent (writesSinceTrim i (actions.zip es)) ∧
      (∀ pos data ch, pos + data.length < 2 ^ 63 → ch.fault = false →
        ∃ t e, final.step stale (.write i pos data ch) = some (t, e) ∧ ∀ n, e.ret = .done n →
          n = min data.length
              ((final.devices i).quantumLen - pos % (final.devices i).quantumLen) ∧
            e.fPos = some (pos + n) ∧
            ∀ j x, byteAt (writesSinceTrim j (actions.zip es ++ [(.write i pos data ch, e)])) x =
              if j = i ∧ pos ≤ x ∧ x < pos + n then data[x - pos]?
              else byteAt (writesSinceTrim j (actions.zip es)) x) ∧
      ∀ pos count ch, pos + count < 2 ^ 63 → ch.fault = false → ch.intr = false →
        ∃ t e, final.step stale (.read i pos count ch) = some (t, e) ∧
          ((final.devices i).len ≤ pos → e.ret = .done 0 ∧ e.got = [] ∧ e.fPos = some pos) ∧
          ∀ b, byteAt (writesSinceTrim i (actions.zip es)) pos = some b → ∀ n,
            n = min (min count ((final.devices i).len - pos))
              ((final.devices i).quantumLen - pos % (final.devices i).quantumLen) →
            e.ret = .done n ∧ e.fPos = some (pos + n) ∧ e.got.length = n ∧
              ∀ j < n, ∀ c, byteAt (writesSinceTrim i (actions.zip es)) (pos + j) = some c →
                e.got[j]? = some c := by
  have hstores : final.StoresHistory (actions.zip es) := by
    have hend := Machine.run_history (R := StoresHistory)
      (fun t a e t' h htake hR =>
        (mem_step_sound htake.step_eq).stores_history (hscope t a e t' htake) hR)
      (stores_history_init hload nrDevs) hrun
    simpa using hend
  have hlog := hstores i
  refine ⟨hlog.len, ?_, ?_⟩
  · intro pos data ch hpos hfault
    obtain ⟨t, e, hlocked⟩ := locked_ends hi hlog.live ch (some pos)
      (fun dev next => scullWrite stale dev pos data ch next)
    have hstep : final.step stale (.write i pos data ch) = some (t, e) := by
      rw [step, if_pos hpos, hlocked]
    exact ⟨t, e, hstep, fun n hret => (mem_step_sound hstep).write_spec hstores hret⟩
  · intro pos count ch hpos hfault hintr
    obtain ⟨t, e, hlocked⟩ := locked_ends hi hlog.live ch (some pos)
      (fun dev next => scullRead dev pos count ch next)
    have hstep : final.step stale (.read i pos count ch) = some (t, e) := by
      rw [step, if_pos hpos, hlocked]
    refine ⟨t, e, hstep, ?_⟩
    cases mem_step_sound hstep with
    | readInterrupted _ _ _ _ htrue => simp [hintr] at htrue
    | read _ _ _ _ dev next _ _ _ _ hread =>
        have hspec := hlog.read_spec hfault (scull_read_outcome hlog.arrays hread)
        rw [hlog.len] at hspec ⊢
        exact hspec

/-- Quanta of four bytes, two to a set: write-only open, three bytes at offset six, then five at
offset two, of which two fit. -/
def writeTwice : List (MemAction UInt8) :=
  [.openDev 0 .wronly {}, .write 0 6 [1, 2, 3] {}, .write 0 2 [4, 5, 6, 7, 8] {}]

/-- A read of ten bytes at offset two then returns the two bytes up to the end of the quantum. -/
theorem scull_refines_flat_map_two_writes :
    ∃ final es,
      Machine.run (step fun _ _ => 0) (init ⟨4, 2, 4000⟩ 1) writeTwice = some (final, es) ∧
      (final.devices 0).len = extent (writesSinceTrim 0 (writeTwice.zip es)) ∧
      ∃ t e, final.step (fun _ _ => 0) (.read 0 2 10 {}) = some (t, e) ∧ e.ret = .done 2 := by
  have hscope : ∀ t a e t', Machine.Takes (step fun _ _ => 0) (init ⟨4, 2, 4000⟩ 1) writeTwice
      t a e t' → t.InScope a :=
    Machine.forall_takes_cons rfl ⟨rfl, fun _ => ⟨by decide, by decide, by decide, by decide⟩⟩
      (Machine.forall_takes_cons rfl ⟨rfl, nofun⟩
        (Machine.forall_takes_cons rfl ⟨rfl, nofun⟩ Machine.forall_takes_nil))
  have hspec := scull_refines_flat_map (fun _ _ => 0) ⟨4, 2, 4000⟩ 1
    ⟨by decide, by decide, by decide, by decide⟩ writeTwice rfl hscope 0 (by decide)
  obtain ⟨t, e, hstep, -, hread⟩ := hspec.2.2 2 10 {} (by decide) rfl rfl
  exact ⟨_, _, rfl, hspec.1, t, e, hstep, (hread 4 rfl 2 rfl).1⟩

end MemState

end Ldd3.Scull
