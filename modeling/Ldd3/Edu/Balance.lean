import Ldd3.Edu.Probe

/-!
# The balance of probing and removing

When the driver gives back what it has acquired. `Clean` says which outcomes of a probe it handles:
`sound_qedu_probe` goes through `qedu_probe` from its end to its beginning and finds that these are
exactly the ones after which a probe holds everything or nothing.
-/

namespace Ldd3.Edu

open ResourceOp (replay replay_append replay_acquire replay_release replay_release_of_notMem)

/-- What a probe holds when it chooses its interrupt. -/
def baseResources : List Resource := [.mapping, .region, .enable, .object]

/-- The interrupt vectors, if there are any. -/
def vectorsIf (useMsi : Bool) : List Resource := if useMsi then [.vectors] else []

/-- All that belongs to a device. -/
def QeduDevice.resources (edu : QeduDevice) : List Resource :=
  .handler edu.irq :: (vectorsIf edu.useMsi ++ baseResources)

/-- A probe that returns 0 holds all that belongs to its device, and the driver data point to its
object, which has not been freed. Any other probe returns a negative code and has released what it
has acquired. -/
def Probed.Sound (r : Probed) : Prop :=
  (r.ret = 0 → ∃ edu, r.edu = some edu ∧ r.drvdata = true ∧
      replay [] r.log = some edu.resources) ∧
    (r.ret ≠ 0 → r.ret < 0 ∧ replay [] r.log = some [])

/-- With interrupt vectors nothing may fail any more. Without them the interrupt may be refused, and
once it is there the device has to be the right one. -/
def CleanIrq (useMsi : Bool) (o : Outcomes) : Prop :=
  if useMsi = true ∧ o.vectors = none then
    o.irqVector.isOk = true ∧ o.request = none ∧ qeduIsId o.id = true ∧ o.sysfs = none
  else o.request ≠ none ∨ qeduIsId o.id = true

/-- The DMA masks have to be accepted. -/
def CleanMasks (useMsi : Bool) (dmaMask : BitVec 32) (o : Outcomes) : Prop :=
  (o.dmaMask = none ∨ dmaMask = qeduDefaultDmaMask ∨ o.dmaDefault = none) ∧
    o.consistent = none ∧ CleanIrq useMsi o

/-- The outcomes of a probe that the driver handles. Any call before the DMA masks may fail. -/
def Clean (useMsi : Bool) (dmaMask : BitVec 32) (o : Outcomes) : Prop :=
  o.kzalloc = false ∨ o.enable ≠ none ∨ o.region ≠ none ∨ o.iomap = false ∨
    CleanMasks useMsi dmaMask o

namespace Probe

variable {o : Outcomes} {p : Probe}

/-- A probe that ends with a negative code is sound if it has released everything. -/
theorem sound_end (hret : p.ret < 0) :
    p.end_.Sound ↔ replay [] (p.log ++ [.release .object]) = some [] := by
  constructor
  · intro h
    exact (h.2 (Int.ne_of_lt hret)).2
  · intro h
    exact ⟨fun hzero => absurd hzero (Int.ne_of_lt hret), fun _ => ⟨hret, h⟩⟩

/-- A probe that frees its object and returns 0 is not sound. -/
theorem not_sound_end (hret : p.ret = 0) : ¬ p.end_.Sound := by
  intro h
  obtain ⟨edu, hedu, -⟩ := h.1 hret
  cases hedu

/-- The log at the label `fail`. -/
theorem fail_log : p.fail.log = p.log ++ qeduRemove p.edu := List.append_assoc _ _ _

/-- `__qedu_remove` and `kfree` release the interrupt vectors only if the object says so. -/
theorem replay_qedu_remove (edu : QeduDevice) (useMsi : Bool) :
    replay (.handler edu.irq :: (vectorsIf useMsi ++ baseResources)) (qeduRemove edu) = some [] ↔
      edu.useMsi = useMsi := by
  have hhandler : replay (.handler edu.irq :: (vectorsIf useMsi ++ baseResources))
      (qeduRemove edu) = _ := replay_release List.mem_cons_self
  rw [hhandler, List.erase_cons_head]
  cases edu.useMsi <;> cases useMsi <;> decide

/-- Without an interrupt the label `fail` releases one that has not been requested. -/
theorem not_sound_fail (hret : p.ret < 0) (hlog : replay [] p.log = some baseResources) :
    ¬ p.fail.Sound := by
  intro h
  have hbalanced := (h.2 (Int.ne_of_lt hret)).2
  rw [fail_log, replay_append hlog] at hbalanced
  have hnone : replay baseResources (qeduRemove p.edu) = none :=
    replay_release_of_notMem (by simp [baseResources])
  cases hnone.symm.trans hbalanced

/-- With an interrupt the label `fail` releases everything but the interrupt vectors. -/
theorem sound_fail (hret : p.ret < 0) (hmsi : p.edu.useMsi = false)
    (hlog : replay [] p.log = some (.handler p.edu.irq :: (vectorsIf p.useMsi ++ baseResources))) :
    p.fail.Sound ↔ p.useMsi = false := by
  have hend : p.fail.Sound ↔ replay [] p.fail.log = some [] := sound_end hret
  rw [hend, fail_log, replay_append hlog, replay_qedu_remove, hmsi]
  exact eq_comm

/-- The label `fail_irq` releases everything but the interrupt vectors. -/
theorem sound_fail_irq (hret : p.ret < 0)
    (hlog : replay [] p.log = some (vectorsIf p.useMsi ++ baseResources)) :
    p.failIrq.Sound ↔ p.useMsi = false := by
  have hend : p.failIrq.Sound ↔ replay [] p.failIrq.log = some [] := sound_end hret
  have hfail : p.failIrq.log =
      p.log ++ [.release .mapping, .release .enable, .release .region, .release .object] := by
    simp [failIrq, failIomap, end_, release]
  rw [hend, hfail, replay_append hlog]
  cases p.useMsi <;> decide

/-- From the creation of the sysfs entries on. -/
theorem sound_create_entries (hmsi : p.edu.useMsi = false) (hdrvdata : p.drvdata = true)
    (hlog : replay [] p.log = some (.handler p.edu.irq :: (vectorsIf p.useMsi ++ baseResources))) :
    (p.createEntries o).Sound ↔ (o.sysfs = none ∨ p.useMsi = false) := by
  unfold createEntries
  cases o.sysfs with
  | none =>
      have hsound : Probed.Sound ⟨p.useMsi, p.dmaMask, 0, some { p.edu with useMsi := p.useMsi },
          p.drvdata, p.log⟩ := ⟨fun _ => ⟨_, rfl, hdrvdata, hlog⟩, fun hne => absurd rfl hne⟩
      simpa using hsound
  | some code =>
      have hfail := sound_fail (p := { p with ret := code }) code.2 hmsi hlog
      simpa using hfail

/-- From the check of the ID register on. -/
theorem sound_check_id (hret : p.ret = 0) (hmsi : p.edu.useMsi = false)
    (hdrvdata : p.drvdata = true)
    (hlog : replay [] p.log = some (.handler p.edu.irq :: (vectorsIf p.useMsi ++ baseResources))) :
    (p.checkId o).Sound ↔ qeduIsId o.id = true ∧ (o.sysfs = none ∨ p.useMsi = false) := by
  unfold checkId
  cases qeduIsId o.id with
  | true =>
      have hcreate :=
        sound_create_entries (o := o) (p := { p with edu.id := o.id }) hmsi hdrvdata hlog
      simpa using hcreate
  | false =>
      -- the check does not set `ret`, which is still the 0 of `request_threaded_irq`
      have hfail : ¬ ({ p with edu.id := o.id }).fail.Sound := not_sound_end hret
      simpa using hfail

/-- From `request_threaded_irq` on. -/
theorem sound_request_irq (hmsi : p.edu.useMsi = false) (hdrvdata : p.drvdata = true)
    (hlog : replay [] p.log = some (vectorsIf p.useMsi ++ baseResources)) :
    (p.requestIrq o).Sound ↔
      if p.useMsi = true then o.request = none ∧ qeduIsId o.id = true ∧ o.sysfs = none
      else o.request ≠ none ∨ qeduIsId o.id = true := by
  unfold requestIrq
  cases o.request with
  | none =>
      have hmem : Resource.handler p.edu.irq ∉ vectorsIf p.useMsi ++ baseResources := by
        cases p.useMsi <;> simp [vectorsIf, baseResources]
      have hcheck : (checkId o ({ p with ret := 0 }.acquire (.handler p.edu.irq))).Sound ↔
          qeduIsId o.id = true ∧ (o.sysfs = none ∨ p.useMsi = false) :=
        sound_check_id rfl hmsi hdrvdata (replay_acquire hlog hmem)
      rw [hcheck]
      cases p.useMsi <;> simp
  | some code =>
      have hfail : ({ p with ret := code }).failIrq.Sound ↔ p.useMsi = false :=
        sound_fail_irq code.2 hlog
      rw [hfail]
      cases p.useMsi <;> simp

/-- From the choice of the interrupt on. -/
theorem sound_choose_irq (hmsi : p.edu.useMsi = false) (hdrvdata : p.drvdata = true)
    (hlog : replay [] p.log = some baseResources) :
    (p.chooseIrq o).Sound ↔ CleanIrq p.useMsi o := by
  unfold chooseIrq CleanIrq
  cases huse : p.useMsi with
  | false =>
      have hrequest := sound_request_irq (o := o) (p := { p with edu.irq := o.devIrq }) hmsi
        hdrvdata (by rw [huse]; exact hlog)
      simpa [huse] using hrequest
  | true =>
      cases hvectors : o.vectors with
      | some code =>
          have hrequest := sound_request_irq (o := o)
            (p := { p with useMsi := false, ret := code, edu.irq := o.devIrq }) hmsi hdrvdata hlog
          simpa using hrequest
      | none =>
          have hacquired : replay [] (p.log ++ [.acquire .vectors]) =
              some (vectorsIf p.useMsi ++ baseResources) := by
            rw [huse]
            exact replay_acquire hlog (by decide)
          cases hvector : o.irqVector with
          | error code =>
              have hfail :
                  (failIrq { { p with ret := 1 }.acquire .vectors with ret := code }).Sound ↔
                    p.useMsi = false := sound_fail_irq code.2 hacquired
              simpa [huse, Except.isOk, Except.toBool] using hfail
          | ok irq =>
              have hrequest : (requestIrq o { { p with ret := 1 }.acquire .vectors with
                  ret := irq.toInt, edu.irq := irq }).Sound ↔
                  if p.useMsi = true then
                    o.request = none ∧ qeduIsId o.id = true ∧ o.sysfs = none
                  else o.request ≠ none ∨ qeduIsId o.id = true :=
                sound_request_irq hmsi hdrvdata hacquired
              simpa [huse, Except.isOk, Except.toBool] using hrequest

/-- From `pci_set_consistent_dma_mask` on. -/
theorem sound_set_consistent_dma_mask (hmsi : p.edu.useMsi = false)
    (hlog : replay [] p.log = some baseResources) :
    (p.setConsistentDmaMask o).Sound ↔ o.consistent = none ∧ CleanIrq p.useMsi o := by
  unfold setConsistentDmaMask
  cases o.consistent with
  | none =>
      have hchoose : (chooseIrq o { p with ret := 0, drvdata := true }).Sound ↔
          CleanIrq p.useMsi o := sound_choose_irq hmsi rfl hlog
      simpa using hchoose
  | some code =>
      have hfail : ¬ ({ p with ret := code }).fail.Sound := not_sound_fail code.2 hlog
      simpa using hfail

/-- From `pci_set_dma_mask` on. -/
theorem sound_set_dma_mask (hmsi : p.edu.useMsi = false)
    (hlog : replay [] p.log = some baseResources) :
    (p.setDmaMask o).Sound ↔ CleanMasks p.useMsi p.dmaMask o := by
  have hnext : ∀ (mask : BitVec 32) (ret : Int),
      (setConsistentDmaMask o { p with dmaMask := mask, ret := ret }).Sound ↔
        o.consistent = none ∧ CleanIrq p.useMsi o :=
    fun mask ret => sound_set_consistent_dma_mask hmsi hlog
  unfold setDmaMask CleanMasks
  cases o.dmaMask with
  | none => simpa using hnext p.dmaMask 0
  | some code =>
      by_cases hmask : p.dmaMask = qeduDefaultDmaMask
      · -- a default mask that is refused is not tried again, and the refusal is ignored
        simpa [hmask] using hnext qeduDefaultDmaMask code
      · cases o.dmaDefault with
        | none => simpa [hmask] using hnext qeduDefaultDmaMask 0
        | some code =>
            have hfail : ¬ ({ p with dmaMask := qeduDefaultDmaMask, ret := code }).fail.Sound :=
              not_sound_fail code.2 hlog
            simpa [hmask] using hfail

/-- From `pci_iomap` on. -/
theorem sound_iomap (hmsi : p.edu.useMsi = false)
    (hlog : replay [] p.log = some [.region, .enable, .object]) :
    (p.iomap o).Sound ↔ o.iomap = false ∨ CleanMasks p.useMsi p.dmaMask o := by
  unfold iomap
  cases o.iomap with
  | true =>
      have hmasks : ((p.acquire .mapping).setDmaMask o).Sound ↔
          CleanMasks p.useMsi p.dmaMask o :=
        sound_set_dma_mask hmsi (replay_acquire hlog (by decide))
      simpa using hmasks
  | false =>
      have hlog' : replay [] ((p.log ++ [.release .enable, .release .region]) ++
          [.release .object]) = some [] := by
        rw [List.append_assoc, replay_append hlog]
        decide
      have hret : -enodev < 0 := by decide
      have hfail : ({ p with ret := -enodev }).failIomap.Sound := (sound_end hret).mpr hlog'
      simpa using hfail

/-- From `pci_request_region` on. -/
theorem sound_request_region (hmsi : p.edu.useMsi = false)
    (hlog : replay [] p.log = some [.enable, .object]) :
    (p.requestRegion o).Sound ↔
      o.region ≠ none ∨ o.iomap = false ∨ CleanMasks p.useMsi p.dmaMask o := by
  unfold requestRegion
  cases o.region with
  | none =>
      have hiomap : (iomap o ({ p with ret := 0 }.acquire .region)).Sound ↔
          o.iomap = false ∨ CleanMasks p.useMsi p.dmaMask o :=
        sound_iomap hmsi (replay_acquire hlog (by decide))
      simpa using hiomap
  | some code =>
      have hlog' : replay [] ((p.log ++ [.release .enable]) ++ [.release .object]) = some [] := by
        rw [List.append_assoc, replay_append hlog]
        decide
      have hfail : ({ p with ret := code }).failRequestRegion.Sound :=
        (sound_end code.2).mpr hlog'
      simpa using hfail

/-- From `pci_enable_device` on. -/
theorem sound_enable_device (hmsi : p.edu.useMsi = false)
    (hlog : replay [] p.log = some [.object]) :
    (p.enableDevice o).Sound ↔
      o.enable ≠ none ∨ o.region ≠ none ∨ o.iomap = false ∨ CleanMasks p.useMsi p.dmaMask o := by
  unfold enableDevice
  cases o.enable with
  | none =>
      have hregion : (requestRegion o ({ p with ret := 0 }.acquire .enable)).Sound ↔
          o.region ≠ none ∨ o.iomap = false ∨ CleanMasks p.useMsi p.dmaMask o :=
        sound_request_region hmsi (replay_acquire hlog (by decide))
      simpa using hregion
  | some code =>
      have hlog' : replay [] (p.log ++ [.release .object]) = some [] := by
        rw [replay_append hlog]
        decide
      have hfail : ({ p with ret := code }).failEnable.Sound := (sound_end code.2).mpr hlog'
      simpa using hfail

end Probe

/-- A probe is sound exactly for the outcomes that the driver handles. -/
theorem sound_qedu_probe (useMsi : Bool) (dmaMask : BitVec 32) (o : Outcomes) :
    (qeduProbe useMsi dmaMask o).Sound ↔ Clean useMsi dmaMask o := by
  unfold qeduProbe Clean
  cases o.kzalloc with
  | true =>
      have henable : (Probe.enableDevice o
          ⟨useMsi, dmaMask, 0, ⟨0, 0, false⟩, false, [.acquire .object]⟩).Sound ↔
          o.enable ≠ none ∨ o.region ≠ none ∨ o.iomap = false ∨ CleanMasks useMsi dmaMask o :=
        Probe.sound_enable_device rfl rfl
      simpa using henable
  | false =>
      have hret : -enomem < 0 := by decide
      have hsound : Probed.Sound ⟨useMsi, dmaMask, -enomem, none, false, []⟩ :=
        ⟨fun hzero => absurd hzero (Int.ne_of_lt hret), fun _ => ⟨hret, rfl⟩⟩
      simpa using hsound

namespace Driver

variable {s t : Driver} {a : DriverAction} {e : DriverEvent}

/-- What is held for a device: all that belongs to it, with the driver data at a live object, if it
is bound, and nothing otherwise. -/
def Accounts (s : Driver) (d : Nat) : Prop :=
  if s.bound d = true then ∃ a edu, s.drvdata d = some a ∧ s.objects a = some edu ∧
    s.held d = some edu.resources
  else s.held d = some []

/-- A step acquires and releases what it should. A probe that returns 0 holds all that belongs to
its device, and the driver data point to the object it has allocated, which is live. Any other probe
returns a negative code and has released what it has acquired. A removal releases what is held for
the device. -/
def AccountsStep (s : Driver) (a : DriverAction) (e : DriverEvent) (t : Driver) : Prop :=
  match a, e with
  | .probe d _, .probed ret log =>
      (ret = 0 → ∃ edu, t.drvdata d = some s.next ∧ t.objects s.next = some edu ∧
          replay [] log = some edu.resources) ∧
        (ret ≠ 0 → ret < 0 ∧ replay [] log = some [])
  | .remove d, .removed log => ∃ held, s.held d = some held ∧ replay held log = some []
  | _, _ => False

/-- The condition on a step: the outcomes of a probe are among those the driver handles. -/
def CleanStep (s : Driver) : DriverAction → Prop
  | .probe _ o => Clean s.useMsi s.dmaMask o
  | .remove _ => True

/-- Every device is accounted for, and no two devices have the same object. -/
structure Balanced (s : Driver) : Prop where
  accounts : ∀ d, s.Accounts d
  fresh : ∀ d a, s.drvdata d = some a → a < s.next
  separate : ∀ d d' a, s.drvdata d = some a → s.drvdata d' = some a → d = d'

/-- A device that is not bound holds nothing. -/
theorem Balanced.held_of_unbound (hs : s.Balanced) {d : Nat} (hbound : s.bound d = false) :
    s.held d = some [] := by
  have haccounts := hs.accounts d
  rwa [Accounts, if_neg (by rw [hbound]; nofun)] at haccounts

/-- A device that is bound holds all that belongs to it. -/
theorem Balanced.owned_of_bound (hs : s.Balanced) {d : Nat} (hbound : s.bound d = true) :
    ∃ a edu, s.drvdata d = some a ∧ s.objects a = some edu ∧ s.held d = some edu.resources := by
  have haccounts := hs.accounts d
  rwa [Accounts, if_pos hbound] at haccounts

/-- A step that leaves a device alone. -/
theorem Accounts.frame {d : Nat} (h : s.Accounts d) (hbound : t.bound d = s.bound d)
    (hdrvdata : t.drvdata d = s.drvdata d) (hheld : t.held d = s.held d)
    (hobjects : ∀ a, s.bound d = true → s.drvdata d = some a → t.objects a = s.objects a) :
    t.Accounts d := by
  unfold Accounts at h ⊢
  rw [hbound, hdrvdata, hheld]
  split at h
  case isTrue hb =>
      obtain ⟨a, edu, ha, hedu, hheld⟩ := h
      rw [if_pos hb]
      exact ⟨a, edu, ha, (hobjects a hb ha).trans hedu, hheld⟩
  case isFalse hb =>
      rw [if_neg hb]
      exact h

/-- The driver data after a probe. -/
theorem drvdata_probed {d d' a : Nat} {r : Probed} (h : (s.probed d r).drvdata d' = some a) :
    (d' = d ∧ a = s.next) ∨ s.drvdata d' = some a := by
  have hcases : (if r.drvdata then Function.update s.drvdata d (some s.next) else s.drvdata) d' =
      some a := h
  split at hcases
  · by_cases hd' : d' = d
    · subst hd'
      rw [Function.update_self] at hcases
      cases hcases
      exact .inl ⟨rfl, rfl⟩
    · rw [Function.update_of_ne hd'] at hcases
      exact .inr hcases
  · exact .inr hcases

/-- A probe that has set the driver data. -/
theorem drvdata_probed_self {d : Nat} {r : Probed} (h : r.drvdata = true) :
    (s.probed d r).drvdata d = some s.next := by
  show (if r.drvdata then Function.update s.drvdata d (some s.next) else s.drvdata) d = _
  rw [if_pos h, Function.update_self]

/-- A probe does not touch the driver data of the other devices. -/
theorem drvdata_probed_of_ne {d d' : Nat} {r : Probed} (hd' : d' ≠ d) :
    (s.probed d r).drvdata d' = s.drvdata d' := by
  show (if r.drvdata then Function.update s.drvdata d (some s.next) else s.drvdata) d' = _
  split
  · exact Function.update_of_ne hd' _ _
  · rfl

/-- What is held for a device after more has been done for it. -/
theorem record_self {d : Nat} {log : List (ResourceOp Resource)} {held : List Resource}
    (h : s.held d = some held) : s.record d log d = replay held log := by
  rw [record, Function.update_self, h]
  rfl

/-- The device of a sound probe is accounted for. -/
theorem Balanced.accounts_probed (hs : s.Balanced) {d : Nat} {r : Probed}
    (hbound : s.bound d = false) (hsound : r.Sound) : (s.probed d r).Accounts d := by
  have hheld : (s.probed d r).held d = replay [] r.log := record_self (hs.held_of_unbound hbound)
  have hret : (s.probed d r).bound d = decide (r.ret = 0) := Function.update_self _ _ _
  unfold Accounts
  rw [hret, hheld]
  by_cases hzero : r.ret = 0
  · obtain ⟨edu, hedu, hdrvdata, hlog⟩ := hsound.1 hzero
    rw [if_pos (decide_eq_true hzero)]
    exact ⟨s.next, edu, drvdata_probed_self hdrvdata,
      (Function.update_self _ _ s.objects).trans hedu, hlog⟩
  · rw [if_neg (by simpa using hzero)]
    exact (hsound.2 hzero).2

/-- A sound probe of a device that is not bound. -/
theorem Balanced.probed (hs : s.Balanced) {d : Nat} {r : Probed} (hbound : s.bound d = false)
    (hsound : r.Sound) : (s.probed d r).Balanced := by
  refine ⟨fun d' => ?_, fun d' a ha => ?_, fun d₁ d₂ a ha₁ ha₂ => ?_⟩
  · by_cases hd' : d' = d
    · subst hd'
      exact hs.accounts_probed hbound hsound
    · refine (hs.accounts d').frame (Function.update_of_ne hd' _ _) (drvdata_probed_of_ne hd')
        (Function.update_of_ne hd' _ _) (fun a _ ha => Function.update_of_ne ?_ _ _)
      exact Nat.ne_of_lt (hs.fresh d' a ha)
  · rcases drvdata_probed ha with ⟨-, rfl⟩ | ha
    · exact Nat.lt_succ_self _
    · exact Nat.lt_succ_of_lt (hs.fresh d' a ha)
  · rcases drvdata_probed ha₁ with ⟨hd₁, hnext₁⟩ | hold₁
    · rcases drvdata_probed ha₂ with ⟨hd₂, -⟩ | hold₂
      · exact hd₁.trans hd₂.symm
      · exact absurd hnext₁ (Nat.ne_of_lt (hs.fresh d₂ a hold₂))
    · rcases drvdata_probed ha₂ with ⟨-, hnext₂⟩ | hold₂
      · exact absurd hnext₂ (Nat.ne_of_lt (hs.fresh d₁ a hold₁))
      · exact hs.separate d₁ d₂ a hold₁ hold₂

/-- A removal releases what is held for the device. -/
theorem replay_resources (edu : QeduDevice) : replay edu.resources (qeduRemove edu) = some [] :=
  (Probe.replay_qedu_remove edu edu.useMsi).mpr rfl

/-- A removal of a device that is bound. -/
theorem Balanced.removed (hs : s.Balanced) {d a : Nat} {edu : QeduDevice}
    (hdrvdata : s.drvdata d = some a) (hheld : s.held d = some edu.resources) :
    (s.removed d a edu).Balanced := by
  refine ⟨fun d' => ?_, hs.fresh, hs.separate⟩
  by_cases hd' : d' = d
  · subst hd'
    have hunbound : (s.removed d' a edu).bound d' = false := Function.update_self _ _ _
    unfold Accounts
    rw [hunbound, if_neg nofun]
    exact (record_self hheld).trans (replay_resources edu)
  · refine (hs.accounts d').frame (Function.update_of_ne hd' _ _) rfl
      (Function.update_of_ne hd' _ _) (fun a' _ ha' => Function.update_of_ne ?_ _ _)
    rintro rfl
    exact hd' (hs.separate d' d a' ha' hdrvdata)

/-- A removal of a device of a balanced driver. -/
theorem Balanced.remove_step (hs : s.Balanced) {d : Nat} (h : s.step (.remove d) = some (t, e)) :
    t.Balanced ∧ s.AccountsStep (.remove d) e t := by
  simp only [step] at h
  split at h
  case isTrue hbound =>
      obtain ⟨a, edu, hdrvdata, hobject, hheld⟩ := hs.owned_of_bound hbound
      simp only [hdrvdata, hobject, Option.map_some] at h
      cases h
      exact ⟨hs.removed hdrvdata hheld, edu.resources, hheld, replay_resources edu⟩
  case isFalse => cases h

/-- A probe of a balanced driver acquires and releases what it should exactly if it is sound. -/
theorem Balanced.accounts_step_probe (hs : s.Balanced) {d : Nat} {o : Outcomes} (r : Probed) :
    s.AccountsStep (.probe d o) (.probed r.ret r.log) (s.probed d r) ↔ r.Sound := by
  have hobject : (s.probed d r).objects s.next = r.edu := Function.update_self _ _ _
  refine and_congr (forall_congr' fun _ => exists_congr fun edu => ?_) Iff.rfl
  rw [hobject]
  constructor
  · rintro ⟨hdrvdata, hedu, hlog⟩
    refine ⟨hedu, ?_, hlog⟩
    cases hset : r.drvdata with
    | true => rfl
    | false =>
        have hold : s.drvdata d = some s.next := by
          have hsame : (s.probed d r).drvdata = s.drvdata := if_neg (by rw [hset]; nofun)
          exact hsame ▸ hdrvdata
        exact absurd (hs.fresh d _ hold) (Nat.lt_irrefl _)
  · rintro ⟨hedu, hset, hlog⟩
    exact ⟨drvdata_probed_self hset, hedu, hlog⟩

/-- A probe of a balanced driver. -/
theorem Balanced.probe_step (hs : s.Balanced) {d : Nat} {o : Outcomes}
    (h : s.step (.probe d o) = some (t, e)) :
    (s.AccountsStep (.probe d o) e t ↔ Clean s.useMsi s.dmaMask o) ∧
      (Clean s.useMsi s.dmaMask o → t.Balanced) := by
  simp only [step] at h
  split at h
  case isTrue => cases h
  case isFalse hbound =>
      cases h
      have hsound := sound_qedu_probe s.useMsi s.dmaMask o
      refine ⟨(hs.accounts_step_probe _).trans hsound, fun hclean => ?_⟩
      exact hs.probed (Bool.eq_false_iff.mpr hbound) (hsound.mpr hclean)

/-- In a run of probes and removals from the loading of the module, every device is accounted for in
every state and every step acquires and releases what it should, exactly if the outcomes of every
probe are among those the driver handles. -/
theorem resources_balanced_iff (useMsi : Bool) (dmaMask : BitVec 32)
    (actions : List DriverAction) :
    ((∀ s, Machine.Visits step (init useMsi dmaMask) actions s → ∀ d, s.Accounts d) ∧
        ∀ s a e t, Machine.Takes step (init useMsi dmaMask) actions s a e t →
          s.AccountsStep a e t) ↔
      ∀ s a e t, Machine.Takes step (init useMsi dmaMask) actions s a e t → s.CleanStep a := by
  refine Machine.holds_iff_guarded (I := Balanced) (P := fun s => ∀ d, s.Accounts d)
    (S := fun _ _ _ _ => True) ?_ (fun s hs => hs.accounts) ?_ ?_ ?_ (fun _ _ _ _ _ => trivial)
  · intro s a e t hs _ hclean hstep
    cases a with
    | probe d o => exact (hs.probe_step hstep).2 hclean
    | remove d => exact (hs.remove_step hstep).1
  · intro s a e t hs _ hclean hstep
    cases a with
    | probe d o => exact (hs.probe_step hstep).1.mpr hclean
    | remove d => exact (hs.remove_step hstep).2
  · intro s a e t hs _ hstep _ haccounts
    cases a with
    | probe d o => exact (hs.probe_step hstep).1.mp haccounts
    | remove d => trivial
  · exact ⟨fun _ => rfl, nofun, nofun⟩

/-- Every call succeeds, with interrupt vectors. -/
def allSucceed : Outcomes :=
  ⟨true, none, none, true, none, none, none, none, .ok 40, 11, none, 0x010000ed, none⟩

/-- `EIO`, negated. -/
def eio : ErrorCode := ⟨-5, by decide⟩

/-- A probe of the first device, when the module has been loaded with its defaults. -/
def probeFirst (o : Outcomes) : Option (Driver × DriverEvent) :=
  step (init true qeduDefaultDmaMask) (.probe 0 o)

/-- A probe that finds the wrong ID returns 0, with the driver data at an object that has been
freed. One whose consistent mask is refused releases an interrupt that it has not requested. One
that gets no sysfs entries, no interrupt or no number for it does not release the interrupt
vectors. -/
theorem resources_not_balanced :
    (∃ t log, probeFirst { allSucceed with id := 0 } = some (t, .probed 0 log) ∧
      t.drvdata 0 = some 0 ∧ t.objects 0 = none ∧ replay [] log = some [.vectors]) ∧
    (∃ t log, probeFirst { allSucceed with consistent := some eio } = some (t, .probed (-5) log) ∧
      replay [] log = none) ∧
    ∀ o ∈ [{ allSucceed with sysfs := some eio }, { allSucceed with request := some eio },
        { allSucceed with irqVector := .error eio }],
      ∃ t log, probeFirst o = some (t, .probed (-5) log) ∧ replay [] log = some [.vectors] := by
  refine ⟨⟨_, _, rfl, rfl, rfl, rfl⟩, ⟨_, _, rfl, rfl⟩, fun o ho => ?_⟩
  simp only [List.mem_cons, List.not_mem_nil, or_false] at ho
  rcases ho with rfl | rfl | rfl
  · exact ⟨_, _, rfl, rfl⟩
  · exact ⟨_, _, rfl, rfl⟩
  · exact ⟨_, _, rfl, rfl⟩

end Driver

end Ldd3.Edu
