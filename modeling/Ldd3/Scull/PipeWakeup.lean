import Ldd3.Scull.PipeHandles

/-!
# Wake-ups of the pipe

Readers sleep on `inq` until there are bytes, writers on `outq` until there is space. A read that
makes space and a write that makes bytes wake the other side after their critical section. The
buffer set-up of an open makes space as well, and wakes nobody. `pipe_wakeups_iff` says that no
reader is ever stranded and that a writer is stranded exactly by such an open.
-/

namespace Ldd3.Scull

/-- The call is a write that sleeps on `outq`. -/
def Task.writerAsleep : Task → Bool
  | writeWait _ _ phase => phase.asleep
  | _ => false

/-- The call is a read that sleeps on `inq`. -/
def Task.readerAsleep : Task → Bool
  | readWait _ _ phase => phase.asleep
  | _ => false

/-- The call has still to execute a wake-up of `outq`. -/
def Task.wakesOutq : Task → Bool
  | readWake _ _ => true
  | _ => false

/-- The call has still to execute a wake-up of `inq`. -/
def Task.wakesInq : Task → Bool
  | writeWake _ _ => true
  | _ => false

/-- The action is an ioctl. -/
def PipeAction.isIoctl : PipeAction → Bool
  | ioctl _ _ _ => true
  | _ => false

/-- The pipe has the same pointers, and so the same bytes and the same space. -/
structure SamePointers (dev dev' : ScullPipe) : Prop where
  rp : dev'.rp = dev.rp
  wp : dev'.wp = dev.wp
  bufLen : dev'.bufLen = dev.bufLen

theorem SamePointers.spacefree {dev dev' : ScullPipe} (h : SamePointers dev dev') :
    spacefree dev' = spacefree dev := by
  simp only [Scull.spacefree, h.rp, h.wp, h.bufLen]

/-- The locked section of a read moves a pointer only if there were bytes, and then a wake-up of
`outq` is due. -/
theorem scull_p_read_wakes {dev dev' : ScullPipe} {nonblock : Bool} {file count : Nat}
    {ch : Choice} {task : Task} {e : Effect}
    (h : scullPRead dev nonblock file count ch = (dev', task, e)) :
    task.writerAsleep = false ∧ task.readerAsleep = false ∧
      (SamePointers dev dev' ∨ dev.rp ≠ dev.wp ∧ task.wakesOutq = true) := by
  unfold scullPRead at h
  split at h
  · split at h <;> cases h <;> exact ⟨rfl, rfl, .inl ⟨rfl, rfl, rfl⟩⟩
  · rename_i hne
    split at h <;> cases h
    · exact ⟨rfl, rfl, .inl ⟨rfl, rfl, rfl⟩⟩
    · exact ⟨rfl, rfl, .inr ⟨hne, rfl⟩⟩

/-- The locked section of a write moves a pointer only if there was space, and then a wake-up of
`inq` is due. -/
theorem scull_p_write_wakes {dev dev' : ScullPipe} {nonblock : Bool} {file : Nat}
    {data : List UInt8} {ch : Choice} {task : Task} {e : Effect}
    (h : scullPWrite dev nonblock file data ch = (dev', task, e)) :
    task.writerAsleep = false ∧ task.readerAsleep = false ∧
      (SamePointers dev dev' ∨ spacefree dev ≠ 0 ∧ task.wakesInq = true) := by
  unfold scullPWrite at h
  split at h
  · split at h <;> cases h <;> exact ⟨rfl, rfl, .inl ⟨rfl, rfl, rfl⟩⟩
  · rename_i hne
    split at h <;> cases h
    · exact ⟨rfl, rfl, .inl ⟨rfl, rfl, rfl⟩⟩
    · exact ⟨rfl, rfl, .inr ⟨hne, rfl⟩⟩

section AfterSections

variable {dev dev' : ScullPipe} {nonblock : Bool} {file count : Nat} {data : List UInt8}
  {ch : Choice} {task : Task} {e : Effect}

/-- A read that makes space owes a wake-up of `outq`. -/
theorem space_after_read (h : scullPRead dev nonblock file count ch = (dev', task, e))
    (hspace : spacefree dev' ≠ 0) : spacefree dev ≠ 0 ∨ task.wakesOutq = true := by
  rcases (scull_p_read_wakes h).2.2 with hsame | ⟨-, hwakes⟩
  · exact .inl (hsame.spacefree ▸ hspace)
  · exact .inr hwakes

/-- A write makes no space. -/
theorem space_after_write (h : scullPWrite dev nonblock file data ch = (dev', task, e))
    (hspace : spacefree dev' ≠ 0) : spacefree dev ≠ 0 ∨ task.wakesOutq = true := by
  rcases (scull_p_write_wakes h).2.2 with hsame | ⟨hbefore, -⟩
  · exact .inl (hsame.spacefree ▸ hspace)
  · exact .inl hbefore

/-- A read brings no bytes. -/
theorem bytes_after_read (h : scullPRead dev nonblock file count ch = (dev', task, e))
    (hbytes : dev'.rp ≠ dev'.wp) : dev.rp ≠ dev.wp ∨ task.wakesInq = true := by
  rcases (scull_p_read_wakes h).2.2 with hsame | ⟨hbefore, -⟩
  · exact .inl (hsame.rp ▸ hsame.wp ▸ hbytes)
  · exact .inl hbefore

/-- A write that brings bytes owes a wake-up of `inq`. -/
theorem bytes_after_write (h : scullPWrite dev nonblock file data ch = (dev', task, e))
    (hbytes : dev'.rp ≠ dev'.wp) : dev.rp ≠ dev.wp ∨ task.wakesInq = true := by
  rcases (scull_p_write_wakes h).2.2 with hsame | ⟨-, hwakes⟩
  · exact .inl (hsame.rp ▸ hsame.wp ▸ hbytes)
  · exact .inr hwakes

end AfterSections

/-- A wake-up of `outq` wakes every writer. -/
theorem writer_asleep_wake_outq (task : Task) : task.wakeOutq.writerAsleep = false := by
  cases task with
  | writeWait file data phase => exact Wait.asleep_wake phase
  | _ => rfl

/-- A wake-up of `inq` wakes every reader. -/
theorem reader_asleep_wake_inq (task : Task) : task.wakeInq.readerAsleep = false := by
  cases task with
  | readWait file count phase => exact Wait.asleep_wake phase
  | _ => rfl

/-- A wake-up of `openq`, made or not, is none of the other queues. -/
theorem any_wake_openq {r : Task → Bool} {tasks : List Task} (wakeOpenq : Bool)
    (h : ∀ task : Task, r task.wakeOpenq = r task) :
    (if wakeOpenq then tasks.map Task.wakeOpenq else tasks).any r = tasks.any r := by
  split
  · exact any_map_of_same h
  · rfl

namespace PipeState

/-- A writer sleeps on `outq`. -/
def writerAsleep (s : PipeState) : Bool := s.tasks.any Task.writerAsleep

/-- A reader sleeps on `inq`. -/
def readerAsleep (s : PipeState) : Bool := s.tasks.any Task.readerAsleep

/-- A call has still to wake `outq`. -/
def outqPending (s : PipeState) : Bool := s.tasks.any Task.wakesOutq

/-- A call has still to wake `inq`. -/
def inqPending (s : PipeState) : Bool := s.tasks.any Task.wakesInq

/-- No writer sleeps while there is space and nobody is about to wake it. -/
def WriterSafe (s : PipeState) : Prop :=
  NoneStranded (s.writerAsleep = true) (spacefree s.pipe ≠ 0) (s.outqPending = true)

/-- No reader sleeps while there are bytes and nobody is about to wake it. -/
def ReaderSafe (s : PipeState) : Prop :=
  NoneStranded (s.readerAsleep = true) (s.pipe.rp ≠ s.pipe.wp) (s.inqPending = true)

/-- The action is an open that gets through the buffer set-up. -/
def resets (s : PipeState) : PipeAction → Bool
  | .openFile mode nonblock ch =>
      s.setsUp (.openFile mode nonblock ch) && bufferFound s.pipe s.tun.scullPLen ch
  | _ => false

variable {u v : PipeState} {a : PipeAction} {e : Effect}

/-- What a step means for the writers' queue. -/
abbrev OutqStep (u v : PipeState) : Prop :=
  QueueStep (u.writerAsleep = true) (spacefree u.pipe ≠ 0) (u.outqPending = true)
    (v.writerAsleep = true) (spacefree v.pipe ≠ 0) (v.outqPending = true)

/-- What a step means for the readers' queue. -/
abbrev InqStep (u v : PipeState) : Prop :=
  QueueStep (u.readerAsleep = true) (u.pipe.rp ≠ u.pipe.wp) (u.inqPending = true)
    (v.readerAsleep = true) (v.pipe.rp ≠ v.pipe.wp) (v.inqPending = true)

/-- Every step but the buffer set-up respects the writers' queue. -/
theorem Step.outq (h : Step u a e v) (hreset : u.resets a = false) : OutqStep u v := by
  -- most steps of a waiting call neither sleep on this queue nor touch the pointers
  have hset : ∀ {t : Nat} {old new : Task}, u.tasks[t]? = some old → old.wakesOutq = false →
      new.writerAsleep = false → OutqStep u (u.setTask t u.pipe new) := fun htask hold hnew =>
    .set htask hold (by simp [hnew]) .inl
  cases h with
  | openInterrupted | readInterrupted | writeInterrupted | ioctl => exact .same id
  | releaseInterrupted | released => exact .same id
  | openFailed mode nonblock ch pipe err hintr hsection =>
      cases open_outcome hsection with
      | ordinaryFailed | wouldBlock | writerFailed => exact .same id
  | openWaits mode nonblock ch pipe hintr hsection =>
      cases open_outcome hsection with
      | waits => exact .add rfl .inl
  | opened mode nonblock ch pipe wakeOpenq hintr hsection =>
      cases open_outcome hsection with
      | ordinary _ hidx _ _ _ hfound => simp [resets, setsUp, hintr, hidx, hfound] at hreset
      | reader => exact .same id
      | writer _ _ hmode _ _ _ hfound => simp [resets, setsUp, hintr, hmode, hfound] at hreset
  | endOfFile => exact .add rfl .inl
  | read file f count ch pipe task e _ _ _ _ hsection =>
      exact .add (scull_p_read_wakes hsection).1 (space_after_read hsection)
  | write file f data ch pipe task e _ _ _ _ hsection =>
      exact .add (scull_p_write_wakes hsection).1 (space_after_write hsection)
  | readAgain t ch file count pipe task e htask _ hsection =>
      exact .set htask rfl (by simp [scull_p_read_wakes hsection]) (space_after_read hsection)
  | writeAgain t ch file data pipe task e htask _ hsection =>
      exact .set htask rfl (by simp [scull_p_write_wakes hsection]) (space_after_write hsection)
  | writeWait t ch file data phase next htask hwait =>
      refine .set htask rfl (fun hnext hspace => ?_) .inl
      have hfalse := Wait.sleep_of_wait_once hwait hnext
      simp [hspace] at hfalse
  | readWait t ch file count phase next htask => exact hset htask rfl rfl
  | openWait t ch mode nonblock phase next htask => exact hset htask rfl rfl
  | readSignalled t ch file count phase htask => exact hset htask rfl rfl
  | writeSignalled t ch file data phase htask => exact hset htask rfl rfl
  | openSignalled t ch mode nonblock phase htask => exact hset htask rfl rfl
  | openedAgain t ch mode nonblock htask => exact hset htask rfl rfl
  | readWake => exact .woken writer_asleep_wake_outq id
  | writeWake t ch file count htask =>
      simp only [OutqStep, writerAsleep, outqPending]
      rw [any_map_of_same (r := Task.writerAsleep) (fun task => by cases task <;> rfl),
        any_map_of_same (r := Task.wakesOutq) (fun task => by cases task <;> rfl)]
      exact .set htask rfl (by simp [Task.writerAsleep]) .inl

/-- Every step respects the readers' queue: the buffer set-up leaves no bytes to wait for. -/
theorem Step.inq (h : Step u a e v) : InqStep u v := by
  have hset : ∀ {t : Nat} {old new : Task}, u.tasks[t]? = some old → old.wakesInq = false →
      new.readerAsleep = false → InqStep u (u.setTask t u.pipe new) := fun htask hold hnew =>
    .set htask hold (by simp [hnew]) .inl
  cases h with
  | openInterrupted | readInterrupted | writeInterrupted | ioctl => exact .same id
  | releaseInterrupted | released => exact .same id
  | openFailed mode nonblock ch pipe err hintr hsection =>
      cases open_outcome hsection with
      | ordinaryFailed | wouldBlock | writerFailed => exact .same id
  | openWaits mode nonblock ch pipe hintr hsection =>
      cases open_outcome hsection with
      | waits => exact .add rfl .inl
  | opened mode nonblock ch pipe wakeOpenq hintr hsection =>
      cases open_outcome hsection with
      | ordinary _ _ hsetup => exact .same fun h => absurd (hsetup.rp.trans hsetup.wp.symm) h
      | reader => exact .same id
      | writer _ _ _ hsetup =>
          have hnone : ¬ pipe.rp ≠ pipe.wp := not_not.mpr (hsetup.rp.trans hsetup.wp.symm)
          simp only [InqStep, readerAsleep, inqPending]
          rw [any_wake_openq (r := Task.readerAsleep) _ (fun task => by cases task <;> rfl),
            any_wake_openq (r := Task.wakesInq) _ (fun task => by cases task <;> rfl)]
          exact .same fun h => absurd h hnone
  | endOfFile => exact .add rfl .inl
  | read file f count ch pipe task e _ _ _ _ hsection =>
      exact .add (scull_p_read_wakes hsection).2.1 (bytes_after_read hsection)
  | write file f data ch pipe task e _ _ _ _ hsection =>
      exact .add (scull_p_write_wakes hsection).2.1 (bytes_after_write hsection)
  | readAgain t ch file count pipe task e htask _ hsection =>
      exact .set htask rfl (by simp [scull_p_read_wakes hsection]) (bytes_after_read hsection)
  | writeAgain t ch file data pipe task e htask _ hsection =>
      exact .set htask rfl (by simp [scull_p_write_wakes hsection]) (bytes_after_write hsection)
  | readWait t ch file count phase next htask hwait =>
      refine .set htask rfl (fun hnext hbytes => ?_) .inl
      have hfalse := Wait.sleep_of_wait_event hwait hnext
      simp [hbytes] at hfalse
  | writeWait t ch file data phase next htask => exact hset htask rfl rfl
  | openWait t ch mode nonblock phase next htask => exact hset htask rfl rfl
  | readSignalled t ch file count phase htask => exact hset htask rfl rfl
  | writeSignalled t ch file data phase htask => exact hset htask rfl rfl
  | openSignalled t ch mode nonblock phase htask => exact hset htask rfl rfl
  | openedAgain t ch mode nonblock htask => exact hset htask rfl rfl
  | writeWake => exact .woken reader_asleep_wake_inq id
  | readWake t ch file count htask =>
      simp only [InqStep, readerAsleep, inqPending]
      rw [any_map_of_same (r := Task.readerAsleep) (fun task => by cases task <;> rfl),
        any_map_of_same (r := Task.wakesInq) (fun task => by cases task <;> rfl)]
      exact .set htask rfl (by simp [Task.readerAsleep]) .inl

/-- An open that gets through the buffer set-up succeeds, and at most wakes other opens. -/
theorem Step.reset_opened (h : Step u a e v) (hreset : u.resets a = true) :
    e = { ret := some .opened } ∧ SetUp u.pipe u.tun.scullPLen v.pipe ∧
      ∃ wakeOpenq : Bool,
        v.tasks = if wakeOpenq then u.tasks.map Task.wakeOpenq else u.tasks := by
  cases h with
  | openInterrupted mode nonblock ch hintr => simp [resets, setsUp, hintr] at hreset
  | openFailed mode nonblock ch pipe err hintr hsection =>
      cases open_outcome hsection with
      | ordinaryFailed _ hfound | writerFailed _ _ hfound => simp [resets, hfound] at hreset
      | wouldBlock hidx hread => simp [resets, setsUp, hidx, hread] at hreset
  | openWaits mode nonblock ch pipe hintr hsection =>
      cases open_outcome hsection with
      | waits hidx hread => simp [resets, setsUp, hidx, hread] at hreset
  | opened mode nonblock ch pipe wakeOpenq hintr hsection =>
      cases open_outcome hsection with
      | ordinary _ _ hsetup => exact ⟨rfl, hsetup, false, rfl⟩
      | reader hidx hread => simp [resets, setsUp, hidx, hread] at hreset
      | writer _ _ _ hsetup => exact ⟨rfl, hsetup, _, rfl⟩
  | _ => simp [resets] at hreset

/-- The buffer set-up empties the pipe and leaves the calls where they were. -/
theorem Step.reset (h : Step u a e v) (hreset : u.resets a = true) :
    SetUp u.pipe u.tun.scullPLen v.pipe ∧ v.writerAsleep = u.writerAsleep ∧
      v.outqPending = u.outqPending := by
  obtain ⟨-, hsetup, wakeOpenq, htasks⟩ := h.reset_opened hreset
  refine ⟨hsetup, ?_, ?_⟩
  · rw [writerAsleep, htasks]
    exact any_wake_openq _ (fun task => by cases task <;> rfl)
  · rw [outqPending, htasks]
    exact any_wake_openq _ (fun task => by cases task <;> rfl)

/-- Only an ioctl changes the tunables. -/
theorem Step.tun (h : Step u a e v) (ha : a.isIoctl = false) : v.tun = u.tun := by
  cases h with
  | ioctl => cases ha
  | _ => rfl

/-- An open gets through the buffer set-up while a writer sleeps and nobody is about to wake it. -/
def StrandsWriter (s : PipeState) (a : PipeAction) : Prop :=
  s.resets a = true ∧ s.writerAsleep = true ∧ s.outqPending = false

/-- A step other than such an open strands no writer. -/
theorem WriterSafe.step (h : WriterSafe u) (hstep : Step u a e v) (hguard : ¬ StrandsWriter u a) :
    WriterSafe v := by
  cases hreset : u.resets a with
  | false => exact (hstep.outq hreset).none_stranded h
  | true =>
      obtain ⟨-, hasleep, hpending⟩ := hstep.reset hreset
      intro hsleeper _
      rw [hasleep] at hsleeper
      rw [hpending]
      by_contra hnone
      exact hguard ⟨hreset, hsleeper, by simpa using hnone⟩

/-- Such an open leaves space behind and nobody to announce it. -/
theorem StrandsWriter.not_safe (h : StrandsWriter u a) (hstep : Step u a e v)
    (hlen : 2 ≤ u.tun.scullPLen) (hfits : u.tun.scullPLen < 2 ^ 64) : ¬ WriterSafe v := by
  obtain ⟨hreset, hsleeper, hnone⟩ := h
  obtain ⟨hsetup, hasleep, hpending⟩ := hstep.reset hreset
  intro hsafe
  have hspace : spacefree v.pipe ≠ 0 := by
    rw [spacefree, if_pos (hsetup.rp.trans hsetup.wp.symm), hsetup.bufLen,
      size_sub_of_le (by omega) hfits]
    omega
  have hwakes := hsafe (hasleep.trans hsleeper) hspace
  simp [hpending, hnone] at hwakes

/-- Wake-ups of a pipe whose length is at least two. In a run of opens, releases, reads and writes
from module load, no reader is ever asleep while there are bytes and no wake-up of `inq` is
still to come. No writer is ever asleep while there is space and no wake-up of `outq` is still
to come, exactly when no open gets through the buffer set-up while a writer is asleep and no
wake-up of `outq` is due. -/
theorem pipe_wakeups_iff (idx : Nat) (tun : Tunables) (hlen : 2 ≤ tun.scullPLen)
    (hfits : tun.scullPLen < 2 ^ 64) (actions : List PipeAction)
    (hcalls : ∀ a ∈ actions, a.isIoctl = false) :
    (∀ t, Machine.Visits step (init idx tun) actions t → ReaderSafe t) ∧
      ((∀ t, Machine.Visits step (init idx tun) actions t → WriterSafe t) ↔
        ∀ t a e t', Machine.Takes step (init idx tun) actions t a e t' → ¬ StrandsWriter t a) := by
  constructor
  · intro t ht
    refine ht.invariant (I := ReaderSafe) ?_ (fun hasleep => by cases hasleep)
    intro u a e v hu hstep
    exact (step_sound hstep).inq.none_stranded hu
  · refine Machine.visits_iff_guarded (I := fun t => t.tun = tun ∧ WriterSafe t)
      (S := fun _ a _ _ => a.isIoctl = false) ?_ (fun t ht => ht.2) ?_
      ⟨rfl, fun hasleep => by cases hasleep⟩ (fun t a e t' htake => hcalls a htake.action_mem)
    · rintro t a e t' ⟨htun, hsafe⟩ ha hguard hstep
      have hs := step_sound hstep
      exact ⟨(hs.tun ha).trans htun, hsafe.step hs hguard⟩
    · rintro t a e t' ⟨htun, -⟩ - hstep hsafe hstrands
      exact hstrands.not_safe (step_sound hstep) (htun ▸ hlen) (htun ▸ hfits) hsafe

/-- Fill a pipe of length two with one byte, and let a second write go to sleep. -/
def fillAndSleep : List PipeAction :=
  [.openFile .rdwr false {}, .write 0 [1] {}, .task 0 {}, .write 0 [2] {}, .task 1 {}, .task 1 {}]

/-- The run completes. While the writer sleeps, a read takes the byte and wakes it. -/
theorem pipe_wakeups_read :
    (Machine.run step (init 0 ⟨4000, 1000, 2⟩)
      (fillAndSleep ++ [.read 0 1 {}, .task 2 {}])).isSome = true ∧
    ∀ t, Machine.Visits step (init 0 ⟨4000, 1000, 2⟩)
      (fillAndSleep ++ [.read 0 1 {}, .task 2 {}]) t → WriterSafe t := by
  refine ⟨rfl, (pipe_wakeups_iff 0 ⟨4000, 1000, 2⟩ (by decide) (by decide) _ ?_).2.mpr ?_⟩
  · simp [fillAndSleep, PipeAction.isIoctl]
  · have hcall : ∀ {s : PipeState} {a : PipeAction}, s.resets a = false → ¬ StrandsWriter s a :=
      fun hreset hstrands => by simp [StrandsWriter, hreset] at hstrands
    refine Machine.forall_takes_cons rfl (by simp [StrandsWriter, writerAsleep, init]) ?_
    refine Machine.forall_takes_cons rfl (hcall rfl) (Machine.forall_takes_cons rfl (hcall rfl) ?_)
    refine Machine.forall_takes_cons rfl (hcall rfl) (Machine.forall_takes_cons rfl (hcall rfl) ?_)
    refine Machine.forall_takes_cons rfl (hcall rfl) (Machine.forall_takes_cons rfl (hcall rfl) ?_)
    exact Machine.forall_takes_cons rfl (hcall rfl) Machine.forall_takes_nil

/-- While the writer sleeps, another client opens the pipe: the pipe is empty, and the writer
sleeps on. -/
theorem pipe_wakeups_broken :
    ¬ ∀ (idx : Nat) (tun : Tunables) (actions : List PipeAction), 2 ≤ tun.scullPLen →
      tun.scullPLen < 2 ^ 64 → (∀ a ∈ actions, a.isIoctl = false) →
      ∀ t, Machine.Visits step (init idx tun) actions t → ReaderSafe t ∧ WriterSafe t := by
  intro h
  have hsafe := h 0 ⟨4000, 1000, 2⟩ (fillAndSleep ++ [.openFile .wronly false {}]) (by decide)
    (by decide) (by simp [fillAndSleep, PipeAction.isIoctl]) _
    (.later rfl (.later rfl (.later rfl (.later rfl (.later rfl (.later rfl (.later rfl
      (.here _ []))))))))
  have hwakes := hsafe.2 (by decide) (by decide)
  exact absurd hwakes (by decide)

end PipeState

end Ldd3.Scull
