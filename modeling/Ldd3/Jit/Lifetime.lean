import Ldd3.Jit.Async

/-!
# The life of a `jit_data`

The object of a call is shared by the reader and the callback. The callback counts the loops down
before its last access to the object, the wake-up of the reader, and a reader that evaluates its
condition in between frees the object under it. A reader that a signal ends returns without freeing
the object, and the callback goes on printing into the file of a call that has returned.

`Owned` is the discipline that holds without these two: a reader frees the object only when the
callback is neither queued nor running. `jit_data_lifetime` follows from it for any number of calls.
-/

namespace Ldd3.Jit

/-- The step is one of the callback, or of the kernel that starts it. -/
def CallAction.ofCallback : CallAction → Bool
  | run _ | callback => true
  | reader | signal => false

/-- The reader has still to free the object. -/
def ShowPc.holds : ShowPc → Bool
  | register | wait _ | check | kfree => true
  | leave _ | returned => false

/-- A wake-up moves the reader only inside its wait. -/
theorem ShowPc.of_wake {pc next : ShowPc} (h : pc.wake = next)
    (hnext : ∀ phase, next ≠ .wait phase) : pc = next := by
  cases pc with
  | wait phase => exact absurd h.symm (hnext _)
  | register | check | kfree | leave _ | returned => exact h

@[simp] theorem ShowPc.holds_wake (pc : ShowPc) : pc.wake.holds = pc.holds := by
  cases pc <;> rfl

namespace Call

/-- The condition on a step: a reader that looks for a signal finds none, and a reader that frees
the object does not do so while the callback has still to wake it. -/
def givesBack (c : Call) (a : CallAction) : Bool :=
  match a, c.reader with
  | .reader, .check => !c.signal
  | .reader, .kfree => c.fn != .wake
  | _, _ => true

/-- The object is freed only when the callback is done with it. -/
structure Owned (c : Call) : Prop where
  registering : c.reader = .register → c.queued = none ∧ c.fn = .idle ∧ c.data.loops ≠ 0
  queued : c.queued.isSome = true → c.fn = .idle ∧ c.data.loops ≠ 0
  counting : c.data.loops = 0 → c.fn = .idle ∨ c.fn = .wake
  checking : c.reader = .check → c.signal = false → c.data.loops = 0
  freeing : c.reader = .kfree → c.data.loops = 0
  held : c.reader.holds = true → c.frees = 0
  freed : c.reader.holds = false → c.frees = 1 ∧ c.queued = none ∧ c.fn = .idle

variable {c d : Call} {a : CallAction} {e : Event} {tdelay : BitVec 32}

theorem owned_start {x : File × BitVec 64 × Bool} (h : start tdelay x = some c) : Owned c := by
  obtain ⟨file, j, ok⟩ := x
  cases file with
  | jitimer | jitasklet =>
      simp only [start, jitTimerStart, jitTaskletStart] at h
      split at h <;> cases h
      constructor <;> simp [asyncLoops, ShowPc.holds]

/-- A callback that runs and has still to count or to queue itself is that of a reader that waits
for it. -/
theorem Owned.running (hs : Owned c) (hidle : c.fn ≠ .idle) :
    c.queued.isSome = false ∧ c.reader ≠ .register ∧ c.reader.holds = true := by
  refine ⟨?_, fun hreader => hidle (hs.registering hreader).2.1, ?_⟩
  · cases hqueued : c.queued.isSome with
    | false => rfl
    | true => exact absurd (hs.queued hqueued).1 hidle
  · cases hholds : c.reader.holds with
    | true => rfl
    | false => exact absurd (hs.freed hholds).2.2 hidle

/-- A step that meets the condition keeps the discipline. -/
theorem Owned.step (hs : Owned c) (h : CallStep c a d) (hguard : c.givesBack a = true) :
    Owned d := by
  cases h with
  | registers hreader =>
      have hheld := hs.held (by rw [hreader]; rfl)
      exact ⟨nofun, fun _ => (hs.registering hreader).2, hs.counting, nofun, nofun, fun _ => hheld,
        nofun⟩
  | waits hreader =>
      have hheld := hs.held (by rw [hreader]; rfl)
      exact ⟨nofun, hs.queued, hs.counting, nofun, nofun, fun _ => hheld, nofun⟩
  | wakesUp hreader hend =>
      have hheld := hs.held (by rw [hreader]; rfl)
      have hdone : c.signal = false → c.data.loops = 0 := fun hsignal =>
        hend.resolve_right (by simp [hsignal])
      exact ⟨nofun, hs.queued, hs.counting, fun _ => hdone, nofun, fun _ => hheld, nofun⟩
  | signalled hreader hsignal => simp [givesBack, hreader, hsignal] at hguard
  | passes hreader hsignal =>
      have hheld := hs.held (by rw [hreader]; rfl)
      exact ⟨nofun, hs.queued, hs.counting, nofun, fun _ => hs.checking hreader hsignal,
        fun _ => hheld, nofun⟩
  | frees hreader =>
      have hheld := hs.held (by rw [hreader]; rfl)
      have hdone := hs.freeing hreader
      have hidle : c.fn = .idle := by
        refine (hs.counting hdone).resolve_right fun hwake => ?_
        simp [givesBack, hreader, hwake] at hguard
      have hqueued : c.queued = none := by
        cases hsome : c.queued with
        | none => rfl
        | some queue => exact absurd hdone (hs.queued (by rw [hsome]; rfl)).2
      exact ⟨nofun, hs.queued, hs.counting, nofun, nofun, nofun,
        fun _ => ⟨by rw [hheld], hqueued, hidle⟩⟩
  | returns hreader =>
      have hfreed := hs.freed (by rw [hreader]; rfl)
      exact ⟨nofun, hs.queued, hs.counting, nofun, nofun, nofun, fun _ => hfreed⟩
  | runs hqueued hidle =>
      have hloops := (hs.queued hqueued).2
      have hsome : c.queued ≠ none := by
        intro hnone
        simp [hnone] at hqueued
      exact ⟨fun hreader => absurd (hs.registering hreader).1 hsome, nofun,
        fun hzero => absurd hzero hloops, hs.checking, hs.freeing, hs.held,
        fun hholds => absurd (hs.freed hholds).2.1 hsome⟩
  | prints hfn =>
      obtain ⟨hqueued, hregister, hholds⟩ := hs.running (by simp [hfn])
      have hloops : c.data.loops ≠ 0 := fun hzero => by simpa [hfn] using hs.counting hzero
      exact ⟨fun hreader => absurd hreader hregister, fun hsome => by simp [hqueued] at hsome,
        fun hzero => absurd hzero hloops, hs.checking, hs.freeing, hs.held,
        fun hfreed => by simp [hholds] at hfreed⟩
  | counts hfn hcount =>
      obtain ⟨hqueued, hregister, hholds⟩ := hs.running (by simp [hfn])
      have hloops : c.data.loops ≠ 0 := fun hzero => by simpa [hfn] using hs.counting hzero
      exact ⟨fun hreader => absurd hreader hregister, fun hsome => by simp [hqueued] at hsome,
        fun hzero => .inr (if_neg (by simpa using hzero)),
        fun hreader hsignal => absurd (hs.checking hreader hsignal) hloops,
        fun hreader => absurd (hs.freeing hreader) hloops, hs.held,
        fun hfreed => by simp [hholds] at hfreed⟩
  | rearms hfn hsame =>
      obtain ⟨hqueued, hregister, hholds⟩ := hs.running (by simp [hfn])
      have hloops : c.data.loops ≠ 0 := fun hzero => by simpa [hfn] using hs.counting hzero
      exact ⟨fun hreader => absurd hreader hregister, fun _ => ⟨rfl, by rwa [hsame]⟩,
        fun _ => .inl rfl,
        fun hreader hsignal => absurd (hs.checking hreader hsignal) hloops,
        fun hreader => absurd (hs.freeing hreader) hloops, hs.held,
        fun hfreed => by simp [hholds] at hfreed⟩
  | wakes hfn =>
      obtain ⟨hqueued, hregister, hholds⟩ := hs.running (by simp [hfn])
      exact ⟨fun hreader => absurd (ShowPc.of_wake hreader nofun) hregister,
        fun hsome => by simp [hqueued] at hsome, fun _ => .inl rfl,
        fun hreader => hs.checking (ShowPc.of_wake hreader nofun),
        fun hreader => hs.freeing (ShowPc.of_wake hreader nofun),
        fun hholds => hs.held (by simpa using hholds),
        fun hfreed => by simp [hholds] at hfreed⟩
  | signals =>
      exact ⟨hs.registering, hs.queued, hs.counting, nofun, hs.freeing, hs.held, hs.freed⟩

/-- The object of an owned call is alive at every step of the callback, and so is the file at every
line it prints. -/
theorem Owned.alive (hs : Owned c) (h : CallStep c a d) (ha : a.ofCallback = true) :
    c.frees = 0 ∧ c.reader ≠ .returned := by
  have hholds : c.reader.holds = true := by
    cases h with
    | runs hqueued hidle =>
        cases hholds : c.reader.holds with
        | true => rfl
        | false => simp [(hs.freed hholds).2.1] at hqueued
    | prints hfn | counts hfn | rearms hfn | wakes hfn => exact (hs.running (by simp [hfn])).2.2
    | _ => cases ha
  refine ⟨hs.held hholds, fun hreturned => ?_⟩
  simp [hreturned, ShowPc.holds] at hholds

end Call

/-- In every run of any number of calls in which no reader that looks for a signal finds one, and
none frees its object while its callback has still to wake it: every object is freed at most once,
and once when its call has returned, and a step of a callback finds the object not freed and the
call that owns the file not returned. -/
theorem jit_data_lifetime (tdelay : BitVec 32)
    (actions : List (Components.Action (File × BitVec 64 × Bool) CallAction))
    (hguard : ∀ s a e t, Machine.Takes (step tdelay) [] actions s a e t →
      Components.each Call.givesBack s a = true) :
    (∀ s, Machine.Visits (step tdelay) [] actions s → ∀ c ∈ s,
        c.frees ≤ 1 ∧ (c.reader = .returned → c.frees = 1)) ∧
      ∀ s i a e t c, Machine.Takes (step tdelay) [] actions s (.act i a) e t → s[i]? = some c →
        a.ofCallback = true → c.frees = 0 ∧ c.reader ≠ .returned := by
  have hnew : ∀ x c, Call.start tdelay x = some c → c.Owned := fun x c h => Call.owned_start h
  have hkeep : ∀ c a e d, Call.Owned c → c.givesBack a = true → c.step tdelay a = some (d, e) →
      d.Owned := fun c a e d hc hg h => hc.step (Call.call_step_sound h) hg
  refine ⟨fun s hs c hc => ?_, fun s i a e t c htake hc ha => ?_⟩
  · have howned := Components.forall_components hnew hkeep hguard hs c hc
    refine ⟨?_, fun hreturned => (howned.freed (by rw [hreturned]; rfl)).1⟩
    cases hholds : c.reader.holds with
    | true => exact howned.held hholds ▸ Nat.zero_le 1
    | false => exact Nat.le_of_eq (howned.freed hholds).1
  · obtain ⟨howned, -, d, f, hstep⟩ := Components.takes_act hnew hkeep hguard htake hc
    exact howned.alive (Call.call_step_sound hstep) ha

section Runs

/-! Runs of one call. -/

/-- `n` steps of the reader of call 0. -/
def readerSteps (n : Nat) : List (Components.Action (File × BitVec 64 × Bool) CallAction) :=
  List.replicate n (.act 0 .reader)

/-- `n` runs of the callback of call 0, each with its three steps. -/
def callbackRuns (n : Nat) : List (Components.Action (File × BitVec 64 × Bool) CallAction) :=
  (List.replicate n
    [.act 0 (.run 10), .act 0 .callback, .act 0 .callback, .act 0 .callback]).flatten

/-- A read of `jitimer` that sleeps until its five lines are printed. -/
def completeRead : List (Components.Action (File × BitVec 64 × Bool) CallAction) :=
  .start (.jitimer, 0, true) :: (readerSteps 4 ++ callbackRuns 5 ++ readerSteps 6)

/-- The call has returned and has freed its object. -/
theorem jit_data_lifetime_complete :
    ∃ c, Machine.Visits (step 10) [] completeRead [c] ∧ c.reader = .returned ∧ c.frees = 1 := by
  have hrun : ∃ c es, Machine.run (step 10) [] completeRead = some ([c], es) ∧
      c.reader = .returned := ⟨_, _, rfl, rfl⟩
  obtain ⟨c, es, hrun, hreturned⟩ := hrun
  have hvisits := Machine.visits_of_run hrun
  have hguard : ∀ s a e t, Machine.Takes (step 10) [] completeRead s a e t →
      Components.each Call.givesBack s a = true := Machine.guard_of_admits rfl
  obtain ⟨hfrees, -⟩ := jit_data_lifetime 10 completeRead hguard
  exact ⟨c, hvisits, hreturned, (hfrees [c] hvisits c List.mem_cons_self).2 hreturned⟩

/-- A signal ends a read of `jitimer` before the timer has expired. -/
def signalledRead : List (Components.Action (File × BitVec 64 × Bool) CallAction) :=
  .start (.jitimer, 0, true) :: (readerSteps 1 ++ .act 0 .signal :: readerSteps 4)

/-- A reader of `jitasklet` evaluates its condition when the tasklet has counted the last loop and
has still to wake it. -/
def earlyRead : List (Components.Action (File × BitVec 64 × Bool) CallAction) :=
  .start (.jitasklet false, 0, true) ::
    (readerSteps 1 ++ callbackRuns 4 ++ [.act 0 (.run 10), .act 0 .callback, .act 0 .callback] ++
      readerSteps 3)

/-- In the first run the call has returned without freeing its object, and the callback prints into
its file. In the second the tasklet wakes the queue of an object that has been freed. -/
theorem jit_data_lifetime_broken :
    (∃ c e t, Machine.Takes (step 10) []
      ((signalledRead ++ [.act 0 (.run 10)]) ++ [.act 0 .callback]) [c] (.act 0 .callback) e t ∧
      c.fn = .print 10 ∧ c.reader = .returned ∧ c.frees = 0) ∧
    ∃ c e t, Machine.Takes (step 10) [] (earlyRead ++ [.act 0 .callback]) [c]
      (.act 0 .callback) e t ∧ c.fn = .wake ∧ c.frees = 1 := by
  have hsignalled : ∃ c es e t,
      Machine.run (step 10) [] (signalledRead ++ [.act 0 (.run 10)]) = some ([c], es) ∧
      step 10 [c] (.act 0 .callback) = some (t, e) ∧ c.fn = .print 10 ∧ c.reader = .returned ∧
      c.frees = 0 := ⟨_, _, _, _, rfl, rfl, rfl, rfl, rfl⟩
  have hearly : (Machine.run (step 10) [] earlyRead).map Prod.fst =
      some [⟨.jitasklet false, ⟨0, false, 10, 0⟩, 1, none, .wake, .leave (.ok ()), false⟩] := by
    decide +kernel
  obtain ⟨c, es, e, t, hrun, hstep, hfn, hreturned, hfrees⟩ := hsignalled
  obtain ⟨⟨s, es'⟩, hrun', rfl⟩ := Option.map_eq_some_iff.mp hearly
  exact ⟨⟨c, e, t, Machine.takes_of_run hrun hstep, hfn, hreturned, hfrees⟩,
    ⟨_, _, _, Machine.takes_of_run hrun' rfl, rfl, rfl⟩⟩

end Runs

end Ldd3.Jit
