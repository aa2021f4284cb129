import Ldd3.Edu.Region

/-!
# What the interrupt test reports

The handlers and the timer callback set their result bit without a look at `IRQ_WAIT`. One that
has been overtaken, spinning on the lock while another agent finished the test, sets its bit after
the call has cleared them, and the next call reports a result that is not its own.

The machine is run together with the events so far, so that a report can be compared with what
happened after the write of `INTR_RAISE` by the same call. `reports_own_interrupt_iff` says that
the reports are right exactly in the runs in which every result bit is set while `IRQ_WAIT` is set.
-/

namespace Ldd3.Edu.EduState

/-- With `IRQ_WAIT` clear and no call in the wait region, there is no result. -/
def Settled (s : EduState) : Prop :=
  s.bits.irqWait = false → (∀ c, ¬ InRegion s c) →
    s.bits.irqOk = false ∧ s.bits.irqTimedout = false

/-- A call that returns `IRQ OK` has seen a handler set `IRQ_OK` after its write to `INTR_RAISE`;
one that returns `IRQ FAIL` has seen the callback set `IRQ_TIMEDOUT` after it, or the device is
shutting down. `events` are the events before the return. -/
def OwnReport (s : EduState) (events : List Event) : Event → Prop
  | .returned c .irqOk => [.raised c, .setOk].Sublist events
  | .returned c (.irqFail _) =>
      [.raised c, .setTimedout].Sublist events ∨ s.bits.shutdown = true
  | _ => True

variable {s t : EduState} {a : Action} {e : Event} {events : List Event}

/-- The result bits are clear outside the tests, and those the call in the region will find have
been set after its write to `INTR_RAISE`. -/
structure OwnResults (s : EduState) (events : List Event) : Prop where
  exclusive : Exclusive s
  clean : s.bits.irqWait = false → s.bits.irqOk = false ∧ s.bits.irqTimedout = false
  entering : ∀ c, s.lock = some (.testIrq c .raised) → .raised c ∈ events
  entered : ∀ c, InRegion s c → .raised c ∈ events
  ok : ∀ c, InRegion s c → s.bits.irqOk = true → [.raised c, .setOk].Sublist events
  timedout : ∀ c, InRegion s c → s.bits.irqTimedout = true →
    [.raised c, .setTimedout].Sublist events
  reporting : ∀ c, s.lock = some (.testIrq c .report) → s.bits.qeduIsIrqDone = true

theorem own_results_init (intrStatus : BitVec 32) : OwnResults (init intrStatus) [] where
  exclusive := exclusive_init intrStatus
  clean _ := ⟨rfl, rfl⟩
  entering _ hlock := by cases hlock
  entered c hc := absurd hc (not_in_region_init intrStatus c)
  ok c hc := absurd hc (not_in_region_init intrStatus c)
  timedout c hc := absurd hc (not_in_region_init intrStatus c)
  reporting _ hlock := by cases hlock

/-- What happened after a write to `INTR_RAISE` stays so. -/
theorem sublist_append_event {since : List Event} (h : since.Sublist events) :
    since.Sublist (events ++ [e]) :=
  h.trans (List.sublist_append_left _ _)

/-- An event that happens now happens after a write that is in the history. -/
theorem sublist_append_of_mem {first : Event} (h : first ∈ events) :
    [first, e].Sublist (events ++ [e]) :=
  (List.singleton_sublist.mpr h).append (List.Sublist.refl [e])

/-- `IRQ_OK` is set by a handler only. -/
theorem DeviceStep.sets_ok (h : DeviceStep s a e t) (hset : t.bits.irqOk = true) :
    s.bits.irqOk = true ∨ e = .setOk := by
  cases h.bits_step with
  | ok => exact .inr rfl
  | clears _ _ hbits =>
      rw [hbits] at hset
      cases hset
  | same hbits | arms _ hbits | timedout _ hbits | shutdown _ hbits =>
      rw [hbits] at hset
      exact .inl hset

/-- `IRQ_TIMEDOUT` is set by the timer callback only. -/
theorem DeviceStep.sets_timedout (h : DeviceStep s a e t) (hset : t.bits.irqTimedout = true) :
    s.bits.irqTimedout = true ∨ e = .setTimedout := by
  cases h.bits_step with
  | timedout => exact .inr rfl
  | clears _ _ hbits =>
      rw [hbits] at hset
      cases hset
  | same hbits | arms _ hbits | ok _ hbits | shutdown _ hbits =>
      rw [hbits] at hset
      exact .inl hset

/-- A result bit `before`, set by the event `set` and clear when `IRQ_WAIT` is, belongs to the call
that is in the region after a step. -/
theorem OwnResults.since (hs : OwnResults s events) (h : DeviceStep s a e t) {c : Nat}
    (hc : InRegion t c) {before : Bool} {set : Event}
    (hclean : s.bits.irqWait = false → before = false)
    (hold : InRegion s c → before = true → [.raised c, set].Sublist events)
    (hset : before = true ∨ e = set) : [.raised c, set].Sublist (events ++ [e]) := by
  rcases h.region hc with hin | ⟨hlock, _⟩
  · rcases hset with hbefore | rfl
    · exact sublist_append_event (hold hin hbefore)
    · exact sublist_append_of_mem (hs.entered c hin)
  · rcases hset with hbefore | rfl
    · cases hbefore.symm.trans (hclean (hs.exclusive.fresh c hlock))
    · exact sublist_append_of_mem (hs.entering c hlock)

/-- A step that sets a result bit only while `IRQ_WAIT` is set keeps the results with their
calls. -/
theorem DeviceStep.own_results (h : DeviceStep s a e t) (hs : OwnResults s events)
    (hguard : SetsResult s a → s.bits.irqWait = true) : OwnResults t (events ++ [e]) where
  exclusive := h.exclusive hs.exclusive
  clean hclear := by
    cases h.bits_step with
    | same hbits | shutdown _ hbits =>
        rw [hbits] at hclear ⊢
        exact hs.clean hclear
    | clears _ _ hbits =>
        rw [hbits]
        exact ⟨rfl, rfl⟩
    | arms _ hbits =>
        rw [hbits] at hclear
        cases hclear
    | ok hsets hbits | timedout hsets hbits =>
        rw [hbits] at hclear
        cases hclear.symm.trans (hguard hsets)
  entering c hlock := by
    cases h.lock_step hlock rfl with
    | kept hbefore => exact List.mem_append_left _ (hs.entering c hbefore)
    | raised => simp
  entered c hc := by
    rcases h.region hc with hbefore | ⟨hlock, _⟩
    · exact List.mem_append_left _ (hs.entered c hbefore)
    · exact List.mem_append_left _ (hs.entering c hlock)
  ok c hc hset := hs.since h hc (fun hclear => (hs.clean hclear).1) (hs.ok c) (h.sets_ok hset)
  timedout c hc hset :=
    hs.since h hc (fun hclear => (hs.clean hclear).2) (hs.timedout c) (h.sets_timedout hset)
  reporting c hlock := by
    cases h.lock_step hlock rfl with
    | kept hbefore hsame => rw [hsame.bits, hs.reporting c hbefore]
    | done _ hdone hbits => rw [hbits, hdone]

/-- With the results where they belong, a call reports its own. -/
theorem DeviceStep.own_report (h : DeviceStep s a e t) (hs : OwnResults s events) :
    OwnReport s events e := by
  cases h with
  | @reports _ c hlock =>
      have hin : InRegion s c := .inr (.inr hlock)
      cases hok : s.bits.irqOk with
      | true => exact hs.ok c hin hok
      | false =>
          have hdone := hs.reporting c hlock
          simp only [StateBits.qeduIsIrqDone, hok, Bool.false_or, Bool.or_eq_true] at hdone
          exact hdone.imp_left (hs.timedout c hin)
  | _ => trivial

/-- A step that sets a result bit leaves `IRQ_WAIT` as it is. -/
theorem result_of_sets_result (hsets : SetsResult s a) (h : s.step a = some (t, e)) :
    t.bits.irqWait = s.bits.irqWait ∧ (t.bits.irqOk = true ∨ t.bits.irqTimedout = true) := by
  unfold step at h
  split at h
  · cases h
  · cases hsets with
    | ok hlock =>
        simp only [lockedStep, hlock, qeduHandleIrq] at h
        cases h
        exact ⟨rfl, .inl rfl⟩
    | timedout hlock hraised hbusy =>
        simp only [lockedStep, hlock, qeduTimeout, hraised, hbusy] at h
        cases h
        exact ⟨rfl, .inr rfl⟩

/-- A result bit set with `IRQ_WAIT` clear is there with no test going on. -/
theorem wait_of_settled (hs : Exclusive s) (hsets : SetsResult s a) (h : s.step a = some (t, e))
    (ht : Settled t) : s.bits.irqWait = true := by
  cases hwait : s.bits.irqWait with
  | true => rfl
  | false =>
      obtain ⟨hsame, hresult⟩ := result_of_sets_result hsets h
      have hclear := hsame.trans hwait
      have hnone : ∀ c, ¬ InRegion t c := by
        intro c hc
        cases hclear.symm.trans (((device_step_sound h).exclusive hs).waits c hc)
      obtain ⟨hok, htimedout⟩ := ht hclear hnone
      rw [hok, htimedout] at hresult
      rcases hresult with hresult | hresult <;> cases hresult

/-- The test reports its own interrupt, and leaves no result behind, exactly in the runs in which
every result bit is set while `IRQ_WAIT` is set. -/
theorem reports_own_interrupt_iff (intrStatus : BitVec 32) (actions : List Action) :
    ((∀ t, Machine.Visits (Machine.recorded step) (init intrStatus, []) actions t → Settled t.1) ∧
        ∀ t a e t', Machine.Takes (Machine.recorded step) (init intrStatus, []) actions t a e t' →
          OwnReport t.1 t.2 e) ↔
      ∀ t a e t', Machine.Takes (Machine.recorded step) (init intrStatus, []) actions t a e t' →
        SetsResult t.1 a → t.1.bits.irqWait = true := by
  refine Machine.holds_iff_guarded (I := fun t => OwnResults t.1 t.2)
    (S := fun _ _ _ _ => True) ?_ ?_ ?_ ?_ (own_results_init intrStatus) (fun _ _ _ _ _ => trivial)
  · intro t a e t' ht _ hguard hstep
    obtain ⟨hstep, hevents⟩ := Machine.recorded_eq_some hstep
    rw [hevents]
    exact (device_step_sound hstep).own_results ht hguard
  · intro t ht hclear _
    exact ht.clean hclear
  · intro t a e t' ht _ _ hstep
    exact (device_step_sound (Machine.recorded_eq_some hstep).1).own_report ht
  · intro t a e t' ht _ hstep hsettled _ hsets
    exact wait_of_settled ht.exclusive hsets (Machine.recorded_eq_some hstep).1 hsettled

/-- The hard handler finds the lock taken by call 0 and leaves the work to the thread. It runs
again, and call 0 reports `IRQ OK` and clears the bits. Now the thread takes the lock and sets
`IRQ_OK`. -/
def lateThread : List Action :=
  [.call, .caller 0 false, .locked 0 0, .irq .hard, .irq .hard, .irq .hard, .locked 0 0,
    .locked 0 0, .irq .thread, .irq .thread, .irq .hard, .irq .hard, .irq .hard, .locked 0 0,
    .locked 0 0, .locked 0 0, .locked 0 0, .locked 0 0, .caller 0 false, .caller 0 false,
    .caller 0 false, .locked 0 0, .locked 0 0, .irq .thread, .locked 0 0, .locked 0 0, .locked 0 0,
    .locked 0 0, .locked 0 0]

/-- The timer of call 0 expires, and while the callback spins on the lock the hard handler runs,
and call 0 reports `IRQ OK` and clears the bits. Now the callback takes the lock, finds no
interrupt raised and sets `IRQ_TIMEDOUT`. -/
def lateTimeout : List Action :=
  [.call, .caller 0 false, .locked 0 0, .locked 0 0, .locked 0 0, .expire, .irq .hard, .irq .hard,
    .irq .hard, .locked 0 0, .locked 0 0, .locked 0 0, .locked 0 0, .locked 0 0, .caller 0 false,
    .caller 0 false, .caller 0 false, .locked 0 0, .locked 0 0, .timeout, .locked 0 0, .locked 0 0,
    .locked 0 0]

/-- Call 1 raises its interrupt and finds the test done. -/
def nextCall : List Action := [.call, .caller 1 false, .locked 0 0, .locked 0 0, .locked 0 0]

/-- Call 1 reports `IRQ OK` though no handler has set the bit after its write, and in another run
`IRQ FAIL` though nothing has timed out; before that the bit is set with no test going on. -/
theorem reports_own_interrupt_broken :
    (∃ t t', Machine.Takes (Machine.recorded step) (init 0, [])
      ((lateThread ++ nextCall) ++ [.locked 0 0]) t (.locked 0 0) (.returned 1 .irqOk) t' ∧
        ¬ OwnReport t.1 t.2 (.returned 1 .irqOk)) ∧
    (∃ t t' bits, Machine.Takes (Machine.recorded step) (init 0, [])
      ((lateTimeout ++ nextCall) ++ [.locked 0 0]) t (.locked 0 0)
      (.returned 1 (.irqFail bits)) t' ∧
        ¬ OwnReport t.1 t.2 (.returned 1 (.irqFail bits))) ∧
    ∃ t, Machine.Visits (Machine.recorded step) (init 0, []) lateTimeout t ∧ ¬ Settled t.1 := by
  refine ⟨⟨_, _, Machine.takes_of_run rfl rfl, ?_⟩, ⟨_, _, _, Machine.takes_of_run rfl rfl, ?_⟩,
    ⟨_, Machine.visits_of_run rfl, ?_⟩⟩
  · simp only [OwnReport]
    decide
  · simp only [OwnReport]
    decide
  · intro hsettled
    have hresult := hsettled rfl ?_
    · cases hresult.2
    · rintro c (⟨phase, hwait⟩ | hlock | hlock)
      · have hmem : ShowPc.wait phase ∈ [ShowPc.returned] := List.mem_of_getElem? hwait
        simp at hmem
      · cases hlock
      · cases hlock

end Ldd3.Edu.EduState
