import Ldd3.Scull.Module

/-!
# The balance of loading and unloading

When the module gives back what it has acquired. `scull_cleanup_module` serves the exit of the
module and the failures of its initialisation, and it removes the `/proc` entry in any case, which
only a complete initialisation creates. `module_balance` says what follows: an initialisation that
fails is balanced only if it fails at once, and one that succeeds is undone completely.
-/

namespace Ldd3.Scull

open ResourceOp (replay Holds holds_nil_iff replay_eq_none_of_release)

variable {part : Part} {o : InitOutcomes} {rs : List ModuleResource}
  {log : List (ResourceOp ModuleResource)}

/-- What is held for the first devices of a part, the latest first. -/
def cdevsHeld (part : Part) (o : InitOutcomes) : Nat → List ModuleResource
  | 0 => []
  | n + 1 =>
      if o.cdevAdd part n then .added part n :: .cdev part n :: cdevsHeld part o n
      else .cdev part n :: cdevsHeld part o n

/-- It belongs to these devices. -/
theorem mem_cdevs_held {n : Nat} {r : ModuleResource} (h : r ∈ cdevsHeld part o n) :
    ∃ i < n, r = .cdev part i ∨ r = .added part i := by
  induction n with
  | zero => cases h
  | succ n ih =>
      have hlast : r = .added part n ∨ r = .cdev part n ∨ r ∈ cdevsHeld part o n := by
        simp only [cdevsHeld] at h
        split at h <;> simp at h
        · exact h
        · exact .inr h
      rcases hlast with rfl | rfl | hmem
      · exact ⟨n, by omega, .inr rfl⟩
      · exact ⟨n, by omega, .inl rfl⟩
      · obtain ⟨i, hi, hr⟩ := ih hmem
        exact ⟨i, by omega, hr⟩

/-- Nothing else does. -/
theorem notMem_cdevs_held {n : Nat} {r : ModuleResource}
    (h : ∀ i, r ≠ .cdev part i ∧ r ≠ .added part i) : r ∉ cdevsHeld part o n := by
  intro hmem
  obtain ⟨i, -, heq | heq⟩ := mem_cdevs_held hmem
  · exact (h i).1 heq
  · exact (h i).2 heq

/-- The resources of a part's devices are not among these. -/
def Free (part : Part) (rs : List ModuleResource) : Prop :=
  ∀ i, .cdev part i ∉ rs ∧ .added part i ∉ rs

/-- The loop that sets up the devices acquires what is held for them. -/
theorem setup_holds (o : InitOutcomes) (h : Holds log rs) (hfree : Free part rs)
    (array : Nat → Cdev) (n : Nat) :
    Holds (forLoop (setupCdev part o) n ⟨array, log⟩).log (cdevsHeld part o n ++ rs) := by
  induction n with
  | zero => exact h
  | succ n ih =>
      have hcdev : .cdev part n ∉ cdevsHeld part o n ++ rs := by
        intro hmem
        rcases List.mem_append.mp hmem with hmem | hmem
        · obtain ⟨i, hi, heq | heq⟩ := mem_cdevs_held hmem <;> cases heq
          omega
        · exact (hfree n).1 hmem
      have hadded : .added part n ∉ .cdev part n :: (cdevsHeld part o n ++ rs) := by
        intro hmem
        rcases List.mem_cons.mp hmem with heq | hmem
        · cases heq
        rcases List.mem_append.mp hmem with hmem | hmem
        · obtain ⟨i, hi, heq | heq⟩ := mem_cdevs_held hmem <;> cases heq
          omega
        · exact (hfree n).2 hmem
      simp only [forLoop, setupCdev, cdevsHeld]
      split
      · exact (ih.acquire hcdev).acquire hadded
      · exact ih.acquire hcdev

/-- The state of a `cdev` after the loop. -/
theorem setup_array (s : Setup) {n i : Nat} (hi : i < n) :
    (forLoop (setupCdev part o) n s).array i =
      if o.cdevAdd part i then .added else .initialised := by
  induction n with
  | zero => omega
  | succ n ih =>
      simp only [forLoop, setupCdev]
      by_cases heq : i = n
      · subst heq
        split <;> simp
      · have hlt : i < n := by omega
        rw [← ih hlt]
        split <;> simp [Function.update_of_ne heq]

/-- The loop that deletes the `cdev`s releases what is held for them. -/
theorem del_holds {array : Nat → Cdev} {n : Nat}
    (harray : ∀ i < n, array i = if o.cdevAdd part i then .added else .initialised)
    (h : Holds log (cdevsHeld part o n ++ rs)) :
    Holds (forLoop (cdevDel part array) n log) rs := by
  induction n generalizing rs with
  | zero => exact h
  | succ n ih =>
      have hlast := harray n (by omega)
      have hearlier : ∀ i < n, array i = if o.cdevAdd part i then .added else .initialised :=
        fun i hi => harray i (by omega)
      simp only [forLoop, cdevDel, hlast]
      simp only [cdevsHeld] at h
      cases hadd : o.cdevAdd part n with
      -- the earlier devices go first
      | true =>
          rw [hadd, if_pos rfl] at h
          have hfirst : Holds log (cdevsHeld part o n ++ .added part n :: .cdev part n :: rs) :=
            h.perm ((List.perm_middle.trans (List.perm_middle.cons _)).symm)
          simpa using (ih hearlier hfirst).release.release
      | false =>
          rw [hadd, if_neg (by decide)] at h
          have hfirst : Holds log (cdevsHeld part o n ++ .cdev part n :: rs) :=
            h.perm List.perm_middle.symm
          simpa using (ih hearlier hfirst).release

/-- The loop that deletes the `cdev`s only releases, and the same from any log. -/
theorem del_releases (part : Part) (array : Nat → Cdev) (n : Nat) :
    ∃ rel : List ModuleResource, ∀ log,
      forLoop (cdevDel part array) n log = log ++ rel.map ResourceOp.release := by
  induction n with
  | zero => exact ⟨[], fun log => (List.append_nil log).symm⟩
  | succ n ih =>
      obtain ⟨rel, hrel⟩ := ih
      by_cases hadded : array n = .added
      · refine ⟨rel ++ [.added part n, .cdev part n], ?_⟩
        intro log
        simp [forLoop, cdevDel, hadded, hrel]
      · refine ⟨rel ++ [.cdev part n], ?_⟩
        intro log
        simp [forLoop, cdevDel, hadded, hrel]

namespace Module

variable {m : Module} {dev : DevNo}

/-- `scull_p_cleanup` only releases, and the same from any log. -/
theorem p_cleanup_releases (m : Module) :
    ∃ rel : List ModuleResource, ∀ log,
      ({ m with log := log } : Module).scullPCleanup.log = log ++ rel.map ResourceOp.release := by
  cases hp : m.scullPDevices with
  | none => exact ⟨[], fun log => by simp [scullPCleanup]⟩
  | some array =>
      obtain ⟨rel, hrel⟩ := del_releases .pipes array m.scullPNrDevs
      refine ⟨rel ++ [.array .pipes, .region .pipes m.scullPDev], ?_⟩
      intro log
      simp [scullPCleanup, release, hrel]

/-- So does the end of `scull_cleanup_module`. -/
theorem cleanup_regions_releases (m : Module) :
    ∃ rel : List ModuleResource, ∀ log,
      ({ m with log := log } : Module).cleanupRegions.log =
        log ++ rel.map ResourceOp.release := by
  obtain ⟨rel, hrel⟩ := m.p_cleanup_releases
  refine ⟨.region .devices m.devno :: rel, ?_⟩
  intro log
  have hafter := hrel (log ++ [.release (.region .devices m.devno)])
  simpa [cleanupRegions, release, devno] using hafter

/-- So does its start. -/
theorem cleanup_devices_releases (m : Module) :
    ∃ rel : List ModuleResource, m.cleanupDevices.log = m.log ++ rel.map ResourceOp.release := by
  cases hd : m.scullDevices with
  | none => exact ⟨[], by simp [cleanupDevices, hd]⟩
  | some array =>
      obtain ⟨rel, hrel⟩ := del_releases .devices array m.scullNrDevs
      cases hkmc : m.kmc with
      | false => exact ⟨rel ++ [.array .devices], by simp [cleanupDevices, hd, release, hrel, hkmc]⟩
      | true =>
          exact ⟨rel ++ [.array .devices, .cache],
            by simp [cleanupDevices, hd, release, hrel, hkmc]⟩

/-- A cleanup without a `/proc` entry is not legal. -/
theorem not_balanced_cleanup (h : .acquire .procEntry ∉ m.log) :
    replay [] m.scullCleanupModule.log = none := by
  obtain ⟨rel, hrel⟩ := m.cleanup_devices_releases
  obtain ⟨rel', hrel'⟩ := m.cleanupDevices.scullRemoveProc.cleanup_regions_releases
  have hlog : m.scullCleanupModule.log =
      m.log ++ rel.map .release ++ [.release .procEntry] ++ rel'.map .release := by
    rw [← hrel]
    exact hrel' m.cleanupDevices.scullRemoveProc.log
  rw [hlog]
  refine replay_eq_none_of_release (r := .procEntry) (by simp) ?_ (by simp)
  simpa using h

/-- What the pipe part holds once the module is there. -/
def pipesHeld (o : InitOutcomes) (n : Nat) (dev : DevNo) : List ModuleResource :=
  if o.pRegion < 0 ∨ o.kmallocArray = false then []
  else cdevsHeld .pipes o n ++ [.array .pipes, .region .pipes dev]

theorem proc_notMem_pipes_held {n : Nat} : .procEntry ∉ pipesHeld o n dev := by
  intro hmem
  simp only [pipesHeld] at hmem
  split at hmem
  · cases hmem
  · rcases List.mem_append.mp hmem with hmem | hmem
    · exact notMem_cdevs_held (fun i => by simp) hmem
    · simp at hmem

/-- The pipe part holds everything or nothing. -/
theorem p_init_holds (h : Holds m.log rs) (hfree : Free .pipes rs)
    (hregion : .region .pipes dev ∉ rs) (harray : .array .pipes ∉ rs) :
    Holds (m.scullPInit o dev).2.log (pipesHeld o m.scullPNrDevs dev ++ rs) := by
  by_cases hfailed : o.pRegion < 0
  · simpa [scullPInit, pipesHeld, hfailed] using h
  · cases halloc : o.kmallocArray with
    | false =>
        have hback := (h.acquire hregion).release
        simpa [scullPInit, pipesHeld, hfailed, halloc, acquire, release] using hback
    | true =>
        have hbase := (h.acquire hregion).acquire (r := .array .pipes) (by simp [harray])
        have hfree' : Free .pipes (.array .pipes :: .region .pipes dev :: rs) :=
          fun i => by simp [(hfree i).1, (hfree i).2]
        have hloop := setup_holds o hbase hfree' (fun _ => .zero) m.scullPNrDevs
        simpa [scullPInit, pipesHeld, hfailed, halloc, acquire, scullPSetupCdev] using hloop

/-- `scull_p_cleanup` releases what the pipe part holds. -/
theorem p_cleanup_holds (hnull : m.scullPDevices = none)
    (h : Holds log (pipesHeld o m.scullPNrDevs dev ++ rs)) :
    Holds ({ (m.scullPInit o dev).2 with log := log } : Module).scullPCleanup.log rs := by
  by_cases hfailed : o.pRegion < 0
  · simpa [scullPInit, scullPCleanup, pipesHeld, hfailed, hnull] using h
  · cases halloc : o.kmallocArray with
    | false => simpa [scullPInit, scullPCleanup, pipesHeld, hfailed, halloc, release] using h
    | true =>
        simp only [pipesHeld, hfailed, halloc, Bool.true_eq_false, or_self, if_false,
          List.append_assoc] at h
        let start : Setup := ⟨fun _ => .zero,
          m.log ++ [.acquire (.region .pipes dev)] ++ [.acquire (.array .pipes)]⟩
        have hdel := (del_holds (fun i hi => setup_array start hi) h).release.release
        simp only [scullPInit, if_neg hfailed, if_pos halloc]
        exact hdel

/-- `scull_p_init` leaves the rest of the module alone. -/
theorem p_init_frame (o : InitOutcomes) (dev : DevNo) (m : Module) :
    (m.scullPInit o dev).2.scullDevices = m.scullDevices ∧
      (m.scullPInit o dev).2.kmc = m.kmc ∧
      (m.scullPInit o dev).2.scullNrDevs = m.scullNrDevs ∧
      (m.scullPInit o dev).2.devno = m.devno := by
  simp only [scullPInit]
  split
  · exact ⟨rfl, rfl, rfl, rfl⟩
  · split <;> exact ⟨rfl, rfl, rfl, rfl⟩

/-- The start of a cleanup changes nothing but the log. -/
theorem cleanup_devices_frame (m : Module) (log : List (ResourceOp ModuleResource)) :
    ({ m.cleanupDevices with log := log } : Module) = { m with log := log } := by
  cases hdevices : m.scullDevices with
  | none => simp [cleanupDevices, hdevices]
  | some array => cases hkmc : m.kmc <;> simp [cleanupDevices, hdevices, hkmc, release]

/-- Neither does the creation of the `/proc` entry. -/
theorem create_proc_frame (o : InitOutcomes) (m : Module)
    (log : List (ResourceOp ModuleResource)) :
    ({ m.scullCreateProc o with log := log } : Module) = { m with log := log } := by
  unfold scullCreateProc
  split <;> rfl

/-- The start of a cleanup releases the devices, the array and the cache. -/
theorem cleanup_devices_holds {array : Nat → Cdev} {r : ModuleResource}
    (hdevices : m.scullDevices = some array) (hkmc : m.kmc = true)
    (harray : ∀ i < m.scullNrDevs,
      array i = if o.cdevAdd .devices i then .added else .initialised)
    (h : Holds m.log
      (rs ++ (cdevsHeld .devices o m.scullNrDevs ++ [.cache, .array .devices, r]))) :
    Holds m.cleanupDevices.log (rs ++ [r]) := by
  have hdel := del_holds harray (h.perm (List.perm_append_comm_assoc _ _ _))
  have hcdevs : Holds (forLoop (cdevDel .devices array) m.scullNrDevs m.log)
      ((rs ++ [.cache]) ++ .array .devices :: [r]) := by simpa using hdel
  have hcache : Holds
      (forLoop (cdevDel .devices array) m.scullNrDevs m.log ++ [.release (.array .devices)])
      (rs ++ .cache :: [r]) := by simpa using hcdevs.release_middle
  have hlog : m.cleanupDevices.log = forLoop (cdevDel .devices array) m.scullNrDevs m.log ++
      [.release (.array .devices)] ++ [.release .cache] := by
    simp [cleanupDevices, hdevices, release, hkmc]
  rw [hlog]
  exact hcache.release_middle

/-- The `/proc` entry, if there is one. -/
def procHeld (o : InitOutcomes) : List ModuleResource :=
  if o.procCreate then [.procEntry] else []

/-- The module has what it needs before it sets up its devices. -/
structure Ready (m : Module) : Prop where
  kmc : m.kmc = true
  pipes : m.scullPDevices = none
  holds : Holds m.log [.cache, .array .devices, .region .devices m.devno]

/-- What a complete initialisation holds. -/
theorem Ready.init_holds (h : Ready m) (o : InitOutcomes) :
    Holds (m.initDevices o).log (procHeld o ++ (pipesHeld o m.scullPNrDevs m.firstPipe ++
      (cdevsHeld .devices o m.scullNrDevs ++
        [.cache, .array .devices, .region .devices m.devno]))) := by
  have hfree : Free .devices [.cache, .array .devices, .region .devices m.devno] :=
    fun i => by simp
  have hloop : Holds (m.setupDevices o).log _ :=
    setup_holds o h.holds hfree (fun _ => .zero) m.scullNrDevs
  -- nothing of the pipe part is there yet
  have hpart : ∀ {r : ModuleResource},
      (∀ i, r ≠ .cdev .devices i ∧ r ≠ .added .devices i) →
      r ∉ [.cache, .array .devices, .region .devices m.devno] →
      r ∉ cdevsHeld .devices o m.scullNrDevs ++
        [.cache, .array .devices, .region .devices m.devno] := by
    intro r hr hbase hmem
    rcases List.mem_append.mp hmem with hmem | hmem
    · exact notMem_cdevs_held hr hmem
    · exact hbase hmem
  have hpipes : Holds ((m.setupDevices o).scullPInit o m.firstPipe).2.log _ :=
    p_init_holds hloop
      (fun i => ⟨hpart (fun j => by simp) (by simp), hpart (fun j => by simp) (by simp)⟩)
      (hpart (fun j => by simp) (by simp)) (hpart (fun j => by simp) (by simp))
  simp only [initDevices, scullCreateProc, procHeld]
  split
  · refine hpipes.acquire ?_
    intro hmem
    rcases List.mem_append.mp hmem with hmem | hmem
    · exact proc_notMem_pipes_held hmem
    · exact hpart (fun j => by simp) (by simp) hmem
  · exact hpipes

/-- The rest of the initialisation leaves the array, the cache and the numbers alone. -/
theorem init_devices_frame (o : InitOutcomes) (m : Module) :
    (m.initDevices o).scullDevices = (m.setupDevices o).scullDevices ∧
      (m.initDevices o).kmc = m.kmc ∧ (m.initDevices o).scullNrDevs = m.scullNrDevs := by
  obtain ⟨hdevices, hkmc, hnr, -⟩ := p_init_frame o m.firstPipe (m.setupDevices o)
  simp only [initDevices, scullCreateProc]
  split <;> exact ⟨hdevices, hkmc, hnr⟩

/-- After a complete initialisation, the start of a cleanup leaves the `/proc` entry, the pipe part
and the region. -/
theorem Ready.cleanup_devices (h : Ready m) (o : InitOutcomes) :
    Holds (m.initDevices o).cleanupDevices.log
      (procHeld o ++ (pipesHeld o m.scullPNrDevs m.firstPipe ++ [.region .devices m.devno])) := by
  obtain ⟨hdevices, hkmc, hnr⟩ := init_devices_frame o m
  have hholds := h.init_holds o
  rw [← List.append_assoc] at hholds ⊢
  refine cleanup_devices_holds (o := o) hdevices (hkmc.trans h.kmc) ?_ (by rw [hnr]; exact hholds)
  intro i hi
  exact setup_array _ (hnr ▸ hi)

/-- The end of a cleanup releases the region and the pipe part. -/
theorem Ready.cleanup_regions (h : Ready m)
    (hlog : Holds log (pipesHeld o m.scullPNrDevs m.firstPipe ++ [.region .devices m.devno])) :
    Holds ({ (m.initDevices o).cleanupDevices with log := log } : Module).cleanupRegions.log
      [] := by
  obtain ⟨-, -, -, hdevno⟩ := p_init_frame o m.firstPipe (m.setupDevices o)
  have hregion := hlog.release_middle
  have hnull : (m.setupDevices o).scullPDevices = none := h.pipes
  have hpipes := p_cleanup_holds hnull hregion
  rw [cleanup_devices_frame]
  simp only [initDevices]
  rw [create_proc_frame]
  have hstart :
      ({ ((m.setupDevices o).scullPInit o m.firstPipe).2 with log := log } : Module).devno =
        m.devno := hdevno
  rw [cleanupRegions, hstart]
  exact hpipes

/-- Everything that has been acquired has been released, and nothing else. -/
def Balanced (log : List (ResourceOp ModuleResource)) : Prop := replay [] log = some []

/-- A complete initialisation with a `/proc` entry is undone by a cleanup. -/
theorem Ready.balanced (h : Ready m) (hproc : o.procCreate = true) :
    Balanced (m.initDevices o).scullCleanupModule.log := by
  have hdevices := h.cleanup_devices o
  rw [procHeld, if_pos hproc] at hdevices
  exact holds_nil_iff.mp (h.cleanup_regions hdevices.release)

/-- Without a `/proc` entry its removal is the only thing too much. -/
theorem Ready.balanced_but_proc (h : Ready m) (hproc : o.procCreate = false) :
    ¬ Balanced (m.initDevices o).scullCleanupModule.log ∧
      ∃ before after, (m.initDevices o).scullCleanupModule.log =
        before ++ .release .procEntry :: after ∧ Balanced (before ++ after) := by
  have hdevices := h.cleanup_devices o
  rw [procHeld, hproc, if_neg (by decide), List.nil_append] at hdevices
  obtain ⟨rel, hrel⟩ := (m.initDevices o).cleanupDevices.cleanup_regions_releases
  have hlog : (m.initDevices o).scullCleanupModule.log =
      (m.initDevices o).cleanupDevices.log ++ .release .procEntry :: rel.map .release := by
    have hafter := hrel ((m.initDevices o).cleanupDevices.log ++ [.release .procEntry])
    rw [List.append_assoc] at hafter
    exact hafter
  constructor
  · intro hbalanced
    have hnone := hdevices.not_release (r := .procEntry) (by simp [proc_notMem_pipes_held])
      (rel.map .release)
    rw [← hlog] at hnone
    cases hnone.symm.trans hbalanced
  · refine ⟨_, _, hlog, ?_⟩
    rw [← hrel]
    exact holds_nil_iff.mp (h.cleanup_regions hdevices)

/-- The module is ready when the region, the array and the cache are there. -/
theorem ready_of_acquired (hlog : m.log = []) (hpipes : m.scullPDevices = none) :
    Ready ({ { m.acquire (.region .devices m.devno) with
        scullDevices := some fun _ => .zero }.acquire (.array .devices) with
        kmc := true }.acquire .cache) := by
  have hnone : Holds m.log [] := by
    rw [hlog]
    exact holds_nil_iff.mpr rfl
  refine ⟨rfl, hpipes, ?_⟩
  have hregion := hnone.acquire (r := .region .devices m.devno) (by simp)
  have harray := hregion.acquire (r := .array .devices) (by simp)
  exact harray.acquire (by simp)

/-- Loading and unloading the module. For any numbers of devices and any outcomes of the calls: an
initialisation that fails has released what it has acquired, and nothing else, exactly if it is the
registration of the region that fails. A cleanup after an initialisation that succeeds releases
everything exactly once, and nothing else if there is a `/proc` entry; if `proc_create` has failed,
its removal is the only thing too much. -/
theorem module_balance (scullMajor scullMinor : Int) (scullNrDevs scullPNrDevs : Nat)
    (o : InitOutcomes) (ret : Int) (m : Module)
    (hinit : (load scullMajor scullMinor scullNrDevs scullPNrDevs).scullInitModule o = (ret, m)) :
    (ret ≠ 0 → (Balanced m.log ↔ o.region < 0)) ∧
      (ret = 0 → o.procCreate = true → Balanced m.scullCleanupModule.log) ∧
      (ret = 0 → o.procCreate = false → ¬ Balanced m.scullCleanupModule.log ∧
        ∃ before after, m.scullCleanupModule.log = before ++ .release .procEntry :: after ∧
          Balanced (before ++ after)) := by
  have hret : ((load scullMajor scullMinor scullNrDevs scullPNrDevs).registerRegion o).1 =
      o.region := by
    unfold registerRegion
    split <;> rfl
  obtain ⟨hlog, hpipes⟩ :
      ((load scullMajor scullMinor scullNrDevs scullPNrDevs).registerRegion o).2.log = [] ∧
      ((load scullMajor scullMinor scullNrDevs scullPNrDevs).registerRegion o).2.scullPDevices =
        none := by
    unfold registerRegion
    split <;> exact ⟨rfl, rfl⟩
  have henomem : -enomem ≠ 0 := by decide
  simp only [scullInitModule, hret] at hinit
  split at hinit
  · rename_i hregion
    cases hinit
    refine ⟨fun _ => iff_of_true ?_ hregion, fun hzero => ?_, fun hzero => ?_⟩
    · rw [Balanced, hlog]
      rfl
    · omega
    · omega
  · rename_i hregion
    -- what fails after the region ends in a cleanup that removes an entry nobody has created
    have hfailed : ∀ failed : Module, .acquire .procEntry ∉ failed.log →
        (Balanced failed.scullCleanupModule.log ↔ o.region < 0) := by
      intro failed hproc
      refine iff_of_false ?_ hregion
      intro hbalanced
      cases (not_balanced_cleanup hproc).symm.trans hbalanced
    split at hinit
    · split at hinit
      · cases hinit
        have hready := ready_of_acquired hlog hpipes
        exact ⟨fun hne => absurd rfl hne, fun _ hproc => hready.balanced hproc,
          fun _ hproc => hready.balanced_but_proc hproc⟩
      · cases hinit
        exact ⟨fun _ => hfailed _ (by simp [acquire, hlog]), fun hzero => absurd hzero henomem,
          fun hzero => absurd hzero henomem⟩
    · cases hinit
      exact ⟨fun _ => hfailed _ (by simp [acquire, hlog]), fun hzero => absurd hzero henomem,
        fun hzero => absurd hzero henomem⟩

/-- All calls succeed, except for `cdev_add` on devices other than the first. -/
def mostSucceed : InitOutcomes := ⟨0, 240, true, true, fun _ i => i == 0, 0, true, true⟩

theorem module_balance_loaded :
    ∃ m, (load 0 0 2 2).scullInitModule mostSucceed = (0, m) ∧
      Balanced m.scullCleanupModule.log :=
  ⟨_, rfl, (module_balance 0 0 2 2 mostSucceed 0 _ rfl).2.1 rfl rfl⟩

/-- Without a cache the initialisation deletes a `cdev` that it has not initialised, and without a
cache or an array it removes a `/proc` entry that it has not created. -/
theorem module_unbalanced :
    (∃ m, (load 0 0 1 1).scullInitModule { mostSucceed with cache := false } = (-enomem, m) ∧
        .acquire (.cdev .devices 0) ∉ m.log ∧ .release (.cdev .devices 0) ∈ m.log ∧
        .acquire .procEntry ∉ m.log ∧ .release .procEntry ∈ m.log ∧ ¬ Balanced m.log) ∧
      ∃ m, (load 0 0 1 1).scullInitModule { mostSucceed with kcalloc := false } = (-enomem, m) ∧
        .acquire .procEntry ∉ m.log ∧ .release .procEntry ∈ m.log ∧ ¬ Balanced m.log := by
  constructor
  · refine ⟨_, rfl, by decide, by decide, by decide, by decide, ?_⟩
    unfold Balanced
    decide
  · refine ⟨_, rfl, by decide, by decide, ?_⟩
    unfold Balanced
    decide

end Module

end Ldd3.Scull
