import Ldd3.Scull.MemoryFailure

/-!
# The length of the memory devices

`scull_write` moves `len` to the file position after the copy, and it does so after a copy of
nothing as well. Before the copy it has allocated the quantum, which readers get to see if it lies
in a hole before `len`. The log of the writes since the last trim is carried along with the module
(`logged`), and `len_is_data_end_iff` says which runs keep `len` at the end of the stored bytes and
hide the writes that store none.
-/

namespace Ldd3.Scull

open WriteLog

variable {β : Type} {stale : Nat → Nat → β} {dev dev' : ScullDev β} {pos next next' : Nat}
  {data : List β} {ch : MemChoice β} {e : MemEffect β}

/-- A write at `pos` gets its quantum: node, array and quantum are there or can be allocated. -/
def ScullDev.gets (stale : Nat → Nat → β) (dev : ScullDev β) (pos : Nat) (ch : MemChoice β)
    (next : Nat) : Bool :=
  let flw := dev.position pos
  let (nodes, next) := scullFollow ch.alloc flw.qsetP dev.qset next
  match nodes[flw.qsetP]? with
  | none => false
  | some node =>
      match allocData ch.alloc dev.qsetLen node next with
      | (none, _) => false
      | (some array, next) => (allocQuantum stale ch.alloc array flw.quantumP next).1.isSome

/-- The copy of a write stores no byte: there is none to copy, or the copy fails before the
first. -/
def ScullDev.CopiesNothing (dev : ScullDev β) (pos : Nat) (data : List β) (ch : MemChoice β) :
    Prop :=
  if ch.fault then
    ∀ k < min data.length (dev.quantumLen - (dev.position pos).offsetP), ch.spoilt k = none
  else data = []

/-- A quantum for `pos` fills a hole: there is none yet, and reads before the end of the device
start in its slot. -/
def ScullDev.FillsHole (dev : ScullDev β) (pos : Nat) : Prop :=
  slotAt dev.qset (dev.position pos).qsetP (dev.position pos).quantumP = none ∧
    ∃ x < dev.len, (dev.position x).qsetP = (dev.position pos).qsetP ∧
      (dev.position x).quantumP = (dev.position pos).quantumP

/-- A call has stored no byte in the device. -/
def MemEffect.StoresNone (e : MemEffect β) (ch : MemChoice β) : Prop :=
  match e.ret, e.copy with
  | .done n, _ => n = 0
  | .failed .EFAULT, some (_, n) => ∀ k < n, ch.spoilt k = none
  | _, _ => True

/-- A write returns `-ENOMEM` exactly when it does not get its quantum. -/
theorem scull_write_no_memory_iff (stale : Nat → Nat → β) (hne : dev.totalLen ≠ 0) (pos : Nat)
    (data : List β) (ch : MemChoice β) (next : Nat) :
    (scullWrite stale dev pos data ch next).2.2.ret = .failed .ENOMEM ↔
      dev.gets stale pos ch next = false := by
  cases hnode : (scullFollow ch.alloc (dev.position pos).qsetP dev.qset next).1[
      (dev.position pos).qsetP]? with
  | none => simp [scullWrite, ScullDev.gets, hne, hnode]
  | some node =>
      cases hdata : allocData ch.alloc dev.qsetLen node
          (scullFollow ch.alloc (dev.position pos).qsetP dev.qset next).2 with
      | mk data' last =>
          cases data' with
          | none => simp [scullWrite, ScullDev.gets, hne, hnode, hdata]
          | some array =>
              cases hquantum : allocQuantum stale ch.alloc array (dev.position pos).quantumP
                  last with
              | mk slot next' =>
                  cases slot with
                  | none => simp [scullWrite, ScullDev.gets, hne, hnode, hdata, hquantum]
                  | some quantum =>
                      cases hfault : ch.fault <;>
                        simp [scullWrite, ScullDev.gets, hne, hnode, hdata, hquantum, hfault]

/-- What a write does with the lock held, as seen by one who asks whether it stores a byte. -/
inductive EmptyWrite (stale : Nat → Nat → β) (dev : ScullDev β) (pos : Nat) (data : List β)
    (ch : MemChoice β) (next : Nat) : ScullDev β → MemEffect β → Prop where
  | oops {eff} (hzero : dev.totalLen = 0) (hnone : eff.StoresNone ch) :
      EmptyWrite stale dev pos data ch next { dev with stuck := true } eff
  | noMemory {nodes eff} (hne : dev.totalLen ≠ 0) (hgets : dev.gets stale pos ch next = false)
      (hsame : SameSlots dev.qset nodes dev.qsetLen) :
      EmptyWrite stale dev pos data ch next { dev with qset := nodes } eff
  | kept {nodes quantum len eff} (hne : dev.totalLen ≠ 0)
      (hgets : dev.gets stale pos ch next = true)
      (hnothing : dev.CopiesNothing pos data ch) (hnone : eff.StoresNone ch)
      (hworks : WorksWith stale dev.qset (dev.position pos).qsetP (dev.position pos).quantumP
        quantum)
      (hset : SlotSet dev.qset nodes dev.qsetLen (dev.position pos).qsetP
        (dev.position pos).quantumP quantum)
      (hlen : len = if ch.fault then dev.len else max dev.len pos) :
      EmptyWrite stale dev pos data ch next { dev with qset := nodes, len := len } eff
  | stores {after eff} (hne : dev.totalLen ≠ 0) (hsome : ¬ dev.CopiesNothing pos data ch)
      (hstores : ¬ eff.StoresNone ch) :
      EmptyWrite stale dev pos data ch next after eff

/-- A write has one of the listed outcomes. -/
theorem empty_write_outcome (harrays : ArraysFit dev.qset dev.qsetLen)
    (h : scullWrite stale dev pos data ch next = (dev', next', e)) :
    EmptyWrite stale dev pos data ch next dev' e := by
  by_cases hzero : dev.totalLen = 0
  · rw [scullWrite, if_pos hzero] at h
    cases h
    exact .oops hzero trivial
  · have hmemory := scull_write_no_memory_iff stale hzero pos data ch next
    rw [h] at hmemory
    cases scull_write_outcome harrays h with
    | oops htotal => exact absurd htotal hzero
    | noMemory nodes hsame => exact .noMemory hzero (hmemory.mp rfl) hsame
    | faulted nodes quantum n _ hfault hworks hn hset =>
        have hgets : dev.gets stale pos ch next = true := by simpa using hmemory
        have hcopies : dev.CopiesNothing pos data ch ↔ ∀ k < n, ch.spoilt k = none := by
          rw [ScullDev.CopiesNothing, if_pos hfault, hn]
        by_cases hnothing : dev.CopiesNothing pos data ch
        · rw [spoil_none _ _ (hcopies.mp hnothing)] at hset
          exact .kept hzero hgets hnothing (hcopies.mp hnothing) hworks hset (if_pos hfault).symm
        · exact .stores hzero hnothing (fun hnone => hnothing (hcopies.mpr hnone))
    | stored nodes quantum n _ hfault hworks hn hset =>
        have hgets : dev.gets stale pos ch next = true := by simpa using hmemory
        have hcopies : dev.CopiesNothing pos data ch ↔ n = 0 := by
          have hoff := (position_lt hzero pos).2
          rw [ScullDev.CopiesNothing, if_neg (by simp [hfault]), ← List.length_eq_zero_iff]
          omega
        by_cases hnothing : dev.CopiesNothing pos data ch
        · obtain rfl : n = 0 := hcopies.mp hnothing
          rw [List.take_zero, store_nil] at hset
          exact .kept hzero hgets hnothing rfl hworks hset (if_neg (by simp [hfault])).symm
        · exact .stores hzero hnothing (fun hnone => hnothing (hcopies.mpr hnone))

/-- A copy of nothing exposes a quantum exactly when the quantum fills a hole. -/
theorem exposes_nothing_iff (hne : dev.totalLen ≠ 0) :
    Exposes dev pos [] {} ↔ dev.FillsHole pos := by
  constructor
  · rintro ⟨off, ⟨-, x, hnode, hslot, -, hlt⟩, hchanged⟩
    refine ⟨?_, x, by omega, hnode, hslot⟩
    cases hold : slotAt dev.qset (dev.position pos).qsetP (dev.position pos).quantumP with
    | none => rfl
    | some quantum =>
        refine absurd ?_ (hchanged quantum hold)
        exact congrFun (spoil_none _ _ fun _ _ => rfl) off
  · rintro ⟨hnone, x, hlt, hnode, hslot⟩
    have hstart := readable_start hne hlt
    rw [hnode, hslot] at hstart
    refine ⟨_, hstart, fun quantum hsome => ?_⟩
    rw [hnone] at hsome
    cases hsome

/-- A quantum that is allocated and not written is seen exactly when it fills a hole. -/
theorem shows_same_iff {nodes : List (ScullQset β)} {quantum : Quantum β}
    (hne : dev.totalLen ≠ 0) (hlen : dev.len < 2 ^ 63)
    (hworks : WorksWith stale dev.qset (dev.position pos).qsetP (dev.position pos).quantumP quantum)
    (hset : SlotSet dev.qset nodes dev.qsetLen (dev.position pos).qsetP (dev.position pos).quantumP
      quantum) :
    (∀ x count fault, x + count < 2 ^ 63 →
        ({ dev with qset := nodes } : ScullDev β).shows x count fault = dev.shows x count fault) ↔
      ¬ dev.FillsHole pos := by
  have hspoilt : spoiltBytes dev pos [] {} quantum.bytes = quantum.bytes :=
    spoil_none _ _ fun _ _ => rfl
  have hset' : SlotSet dev.qset nodes dev.qsetLen (dev.position pos).qsetP
      (dev.position pos).quantumP
      { quantum with bytes := spoiltBytes dev pos [] {} quantum.bytes } := by
    rw [hspoilt]
    exact hset
  rw [← exposes_nothing_iff hne]
  constructor
  · intro hshows hexposes
    obtain ⟨x, count, hle, hdiffers⟩ := exists_shows_ne hne hset' hworks hexposes
    exact hdiffers (hshows x count false (hle.trans_lt hlen))
  · intro hhidden x count fault _
    exact shows_of_not_exposes hworks hset' hne hhidden x count fault

/-- After a write `len` is still the end of the stored bytes, unless the write has succeeded, has
stored none and lies beyond `len`. -/
theorem ends_at_write_iff {log : List (Nat × List β)} (i : Nat)
    (harrays : ArraysFit dev.qset dev.qsetLen) (hlog : EndsAt log dev.len)
    (h : scullWrite stale dev pos data ch next = (dev', next', e)) :
    EndsAt (logStep i log (.write i pos data ch, e)) dev'.len ↔
      (dev.totalLen ≠ 0 → dev.gets stale pos ch next = true → ch.fault = false → data = [] →
        pos ≤ dev.len) := by
  cases scull_write_outcome harrays h with
  | oops hzero => exact iff_of_true hlog fun hne => absurd hzero hne
  | noMemory nodes _ =>
      refine iff_of_true hlog fun hne hgets => ?_
      have hmemory := scull_write_no_memory_iff stale hne pos data ch next
      rw [h, hgets] at hmemory
      cases hmemory.mp rfl
  | faulted nodes quantum n _ hfault =>
      refine iff_of_true hlog fun _ _ hnone => ?_
      rw [hfault] at hnone
      cases hnone
  | stored nodes quantum n hne hfault _ hn =>
      have hoff := (position_lt hne pos).2
      rw [logStep, if_pos rfl]
      rcases Nat.eq_zero_or_pos n with rfl | hpos
      · have hnil : data = [] := List.length_eq_zero_iff.mp (by omega)
        have hgets : dev.gets stale pos ch next = true := by
          simpa [h] using scull_write_no_memory_iff stale hne pos data ch next
        rw [List.take_zero, ends_at_append_nil_iff]
        show EndsAt log (max dev.len pos) ↔ _
        constructor
        · intro hmax _ _ _ _
          have hsame := hmax.unique hlog
          omega
        · intro hle
          rwa [Nat.max_eq_left (hle hne hgets hfault hnil)]
      · have hlength : (data.take n).length = n := by simp [hn]
        refine iff_of_true ?_ fun _ _ _ hnil => ?_
        · have happend := hlog.append pos (hpos.trans_eq hlength.symm)
          rwa [hlength] at happend
        · simp [hnil] at hn
          omega

namespace MemState

variable {s t : MemState β} {a : MemAction β}

/-- The module with the logs of the successful writes since the last trim, one for each device. -/
abbrev Logged (β : Type) := MemState β × (Nat → List (Nat × List β))

/-- One step of the clients, with the logs carried along. -/
def logged (stale : Nat → Nat → β) :
    Logged β → MemAction β → Option (Logged β × MemEffect β) :=
  Machine.ghosted (fun logs _ a e _ i => logStep i (logs i) (a, e)) (step stale)

/-- A write that stores no byte leaves all reads as they were. -/
def Unseen (stale : Nat → Nat → β) (s : MemState β) (a : MemAction β) (e : MemEffect β)
    (t : MemState β) : Prop :=
  match a with
  | .write _ _ _ ch => e.StoresNone ch →
      ∀ j x count ch', t.sees stale j x count ch' = s.sees stale j x count ch'
  | _ => True

/-- A write that is not interrupted finds a device with a geometry. If it gets its quantum and
stores no byte, it does not succeed beyond `len`, and its quantum does not fill a hole. -/
def EmptyWriteFits (stale : Nat → Nat → β) (s : MemState β) : MemAction β → Prop
  | .write i pos data ch => ch.intr = false →
      (s.devices i).totalLen ≠ 0 ∧
        ((s.devices i).gets stale pos ch s.next = true →
          (s.devices i).CopiesNothing pos data ch →
          (ch.fault = false → pos ≤ (s.devices i).len) ∧ ¬ (s.devices i).FillsHole pos)
  | _ => True

section Write

variable {i : Nat}

/-- The length after a write that has stored no byte and does not lie beyond it. -/
theorem len_of_kept {len : Nat} (hlen : len = if ch.fault then dev.len else max dev.len pos)
    (hpos : ch.fault = false → pos ≤ dev.len) : len = dev.len := by
  cases hfault : ch.fault with
  | true => rw [hlen, hfault, if_pos rfl]
  | false =>
      rw [hlen, hfault, if_neg Bool.false_ne_true]
      exact Nat.max_eq_left (hpos hfault)

/-- Nobody sees a write that meets the condition. -/
theorem unseen_write (hshaped : s.Shaped) (hlens : s.LenFits)
    (hstep : s.step stale (.write i pos data ch) = some (t, e))
    (hfits : s.EmptyWriteFits stale (.write i pos data ch)) :
    Unseen stale s (.write i pos data ch) e t := by
  have hs := mem_step_sound hstep
  have ht := hs.shaped hshaped
  intro hnone
  cases hs with
  | writeInterrupted => exact fun _ _ _ _ => rfl
  | write _ _ _ _ dev next _ hintr hi _ hwrite =>
      have hlive := live_of_write hstep hintr
      obtain ⟨htotal, hempty⟩ := hfits hintr
      cases empty_write_outcome (hshaped i) hwrite with
      | oops hzero => exact absurd hzero htotal
      | noMemory _ _ hsame =>
          rw [sees_update_iff hshaped ht hi hlive hlive]
          exact fun x count fault _ => shows_congr (hsame.slots _ _) count fault
      | kept hne hgets hnothing _ hworks hset hlen =>
          obtain ⟨hpos, hhole⟩ := hempty hgets hnothing
          obtain rfl := len_of_kept hlen hpos
          rw [sees_update_iff hshaped ht hi hlive hlive]
          exact (shows_same_iff hne (hlens i) hworks hset).mpr hhole
      | stores _ _ hstores => exact absurd hnone hstores

/-- A write that nobody sees and that has not moved `len` beyond the stored bytes meets the
condition. -/
theorem fits_of_unseen (hshaped : s.Shaped) (hlens : s.LenFits)
    (hstep : s.step stale (.write i pos data ch) = some (t, e))
    (hunseen : Unseen stale s (.write i pos data ch) e t)
    (hpos : ch.intr = false → (s.devices i).totalLen ≠ 0 →
      (s.devices i).gets stale pos ch s.next = true → ch.fault = false → data = [] →
      pos ≤ (s.devices i).len) :
    s.EmptyWriteFits stale (.write i pos data ch) := by
  intro hintr
  have hs := mem_step_sound hstep
  have ht := hs.shaped hshaped
  cases hs with
  | writeInterrupted _ _ _ _ htrue =>
      rw [hintr] at htrue
      cases htrue
  | write _ _ _ _ dev next _ _ hi _ hwrite =>
      have hlive := live_of_write hstep hintr
      cases empty_write_outcome (hshaped i) hwrite with
      | oops hzero hnone =>
          -- after the trap a read of the device does not return
          have hread := hunseen hnone i 0 0 {}
          rw [sees_eq ht, sees_eq hshaped] at hread
          simp [hi, hlive] at hread
      | noMemory hne hfails _ =>
          refine ⟨hne, fun hgets => ?_⟩
          rw [hfails] at hgets
          cases hgets
      | kept hne hgets hnothing hnone hworks hset hlen =>
          have hle : ch.fault = false → pos ≤ (s.devices i).len := by
            intro hfault
            rw [ScullDev.CopiesNothing, if_neg (by simp [hfault])] at hnothing
            exact hpos hintr hne hgets hfault hnothing
          refine ⟨hne, fun _ _ => ⟨hle, ?_⟩⟩
          obtain rfl := len_of_kept hlen hle
          have hreads := hunseen hnone
          rw [sees_update_iff hshaped ht hi hlive hlive] at hreads
          exact (shows_same_iff hne (hlens i) hworks hset).mp hreads
      | stores hne hsome => exact ⟨hne, fun _ hnothing => absurd hnothing hsome⟩

end Write

/-- The length of every device is the end of the bytes that were stored in it since its last
trim. -/
def LensEnd (s : MemState β) (logs : Nat → List (Nat × List β)) : Prop :=
  ∀ i, EndsAt (logs i) (s.devices i).len

/-- The lengths after a call on device `i`, which is none of the others' logs. -/
theorem lens_end_update {logs : Nat → List (Nat × List β)} {i next : Nat}
    {call : MemAction β × MemEffect β} (h : s.LensEnd logs)
    (hdev : EndsAt (logStep i (logs i) call) dev.len)
    (hother : ∀ j, j ≠ i → logStep j (logs j) call = logs j) :
    LensEnd { s with devices := Function.update s.devices i dev, next := next }
      fun j => logStep j (logs j) call := by
  intro j
  show EndsAt (logStep j (logs j) call) (Function.update s.devices i dev j).len
  by_cases heq : j = i
  · subst heq
    rwa [Function.update_self]
  · rw [Function.update_of_ne heq, hother j heq]
    exact h j

/-- A write to another device is not in the log. -/
theorem log_step_write_of_ne {i j : Nat} (h : j ≠ i) (log : List (Nat × List β)) (pos : Nat)
    (data : List β) (ch : MemChoice β) (e : MemEffect β) :
    logStep j log (.write i pos data ch, e) = log := by
  obtain ⟨copy, got, freed, fPos, ret⟩ := e
  cases ret with
  | done n => exact if_neg (Ne.symm h)
  | failed _ | ioctl _ | oops => rfl

/-- Every call that meets the condition keeps the lengths at the end of the stored bytes. -/
theorem MemStep.lens_end {logs : Nat → List (Nat × List β)} (h : MemStep stale s a e t)
    (hshaped : s.Shaped) (hlens : s.LensEnd logs) (hfits : s.EmptyWriteFits stale a) :
    t.LensEnd fun i => logStep i (logs i) (a, e) := by
  cases h with
  | openInterrupted | readInterrupted | writeInterrupted | ioctl => exact hlens
  | opened i mode ch hmode =>
      cases mode with
      | wronly => exact absurd rfl hmode
      | rdonly | rdwr => exact hlens
  | trimmed i ch =>
      refine lens_end_update hlens ?_ fun j hj => if_neg (Ne.symm hj)
      rw [logStep, if_pos rfl]
      exact ends_at_nil
  | read i pos count ch dev next e _ _ _ hread =>
      refine lens_end_update hlens ?_ fun _ _ => rfl
      cases scull_read_outcome (hshaped i) hread with
      | atEnd | oops | hole | faulted | copied => exact hlens i
  | write i pos data ch dev next e hintr _ _ hwrite =>
      refine lens_end_update hlens ?_ fun j hj => ?_
      · refine (ends_at_write_iff i (hshaped i) (hlens i) hwrite).mpr fun _ hgets hfault hnil => ?_
        refine ((hfits hintr).2 hgets ?_).1 hfault
        rw [ScullDev.CopiesNothing, if_neg (by simp [hfault])]
        exact hnil
      · exact log_step_write_of_ne hj _ pos data ch e

/-- The length of the memory devices. In a run from module load, whatever the geometries and
failures, `len` always is the end of the bytes stored by successful writes since the last trim, and
no write that stores no byte is seen by a reader, if and only if every write of the run that is not
interrupted finds a device with a geometry and, where it stores no byte, neither succeeds beyond
`len` nor fills a hole before it. -/
theorem len_is_data_end_iff (stale : Nat → Nat → β) (tun : Tunables) (nrDevs : Nat)
    (actions : List (MemAction β)) :
    ((∀ t, Machine.Visits (logged stale) (init tun nrDevs, fun _ => []) actions t →
        t.1.LensEnd t.2) ∧
      ∀ t a e t', Machine.Takes (logged stale) (init tun nrDevs, fun _ => []) actions t a e t' →
        Unseen stale t.1 a e t'.1) ↔
      ∀ t a e t', Machine.Takes (logged stale) (init tun nrDevs, fun _ => []) actions t a e t' →
        t.1.EmptyWriteFits stale a := by
  refine Machine.holds_iff_guarded
    (I := fun t : Logged β => t.1.Shaped ∧ t.1.LenFits ∧ t.1.LensEnd t.2)
    (Q := fun t a e t' => Unseen stale t.1 a e t'.1) (S := fun _ _ _ _ => True) ?_
    (fun t ht => ht.2.2) ?_ ?_
    ⟨shaped_init tun nrDevs, fun _ => Nat.two_pow_pos 63, fun _ => ends_at_nil⟩
    (fun _ _ _ _ _ => trivial)
  · rintro t a e t' ⟨hshaped, hlens, hends⟩ - hfits hstep
    obtain ⟨hstep, hlogs⟩ := Machine.ghosted_eq_some hstep
    have hs := mem_step_sound hstep
    rw [hlogs]
    exact ⟨hs.shaped hshaped, hs.len_fits hshaped hlens, hs.lens_end hshaped hends hfits⟩
  · rintro t a e t' ⟨hshaped, hlens, -⟩ - hfits hstep
    obtain ⟨hstep, -⟩ := Machine.ghosted_eq_some hstep
    cases a with
    | write i pos data ch => exact unseen_write hshaped hlens hstep hfits
    | openDev _ _ _ | read _ _ _ _ | ioctl _ _ _ => trivial
  · rintro ⟨t, logs⟩ a e ⟨t', logs'⟩ ⟨hshaped, hlens, hends⟩ - hstep hends' hunseen
    obtain ⟨hstep, rfl⟩ := Machine.ghosted_eq_some hstep
    cases a with
    | openDev _ _ _ | read _ _ _ _ | ioctl _ _ _ => trivial
    | write i pos data ch =>
        refine fits_of_unseen hshaped hlens hstep hunseen fun hintr => ?_
        have hlen := hends' i
        cases mem_step_sound hstep with
        | writeInterrupted _ _ _ _ htrue =>
            rw [hintr] at htrue
            cases htrue
        | write _ _ _ _ dev next _ _ _ _ hwrite =>
            refine (ends_at_write_iff i (hshaped i) (hends i) hwrite).mp ?_
            simpa using hlen

/-- A write of nothing at offset nine of an empty device. -/
def emptyBeyond : List (MemAction UInt8) := [.write 0 9 [] {}]

/-- A byte at offset nine, and a write of nothing at offset zero. -/
def emptyInHole : List (MemAction UInt8) := [.write 0 9 [1] {}, .write 0 0 [] {}]

/-- The first run leaves a device of nine bytes in which none is stored. After the second one a read
at offset zero returns four bytes that nobody has written, where it returned none before. -/
theorem len_is_data_end_broken :
    (¬ ∀ (stale : Nat → Nat → UInt8) (tun : Tunables) (nrDevs : Nat)
        (actions : List (MemAction UInt8)) (t : Logged UInt8),
      Machine.Visits (logged stale) (init tun nrDevs, fun _ => []) actions t → t.1.LensEnd t.2) ∧
    ¬ ∀ (stale : Nat → Nat → UInt8) (tun : Tunables) (nrDevs : Nat)
        (actions : List (MemAction UInt8)) t a e t',
      Machine.Takes (logged stale) (init tun nrDevs, fun _ => []) actions t a e t' →
        Unseen stale t.1 a e t'.1 := by
  constructor
  · intro h
    have hlens := h (fun _ _ => 0) ⟨4, 2, 4000⟩ 1 emptyBeyond _ (.later rfl (.here _ [])) 0
    exact absurd (hlens.last (by decide)) (by decide)
  · intro h
    have hreads := h (fun _ _ => 0) ⟨4, 2, 4000⟩ 1 emptyInHole _ _ _ _
      (.later rfl (.here [] rfl)) rfl 0 0 4 {}
    have hlength := congrArg (Option.map fun seen => seen.1.length) hreads
    exact absurd hlength (by decide)

end MemState

end Ldd3.Scull
