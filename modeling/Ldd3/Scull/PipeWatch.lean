import Ldd3.Scull.PipeWakeup

/-!
# Those who watch a pipe

Clients that are told of what happens on a pipe. A call of `poll` or `select` asks `scull_p_poll`,
which puts it on both queues of the pipe, and sleeps until a wake-up of one of them if its file has
nothing to report; then it asks again. A file that has asked for it by `scull_p_fasync` gets SIGIO
after every write.

`poll_wakeups_iff` says when no such call sleeps on while its file has something to report. The two
things that strand it wake nobody: the buffer set-up of an open, which makes space, and the release
of the last writer of the proper FIFO, which hangs it up. `sigio_exact` says who gets the signal.
-/

namespace Ldd3.Scull

/-- Where a call of `poll` is. The flag tells whether a wake-up has reached it on the queues. -/
inductive PollPhase where
  /-- about to call `scull_p_poll` for the first time -/
  | first
  /-- about to call it again -/
  | again (triggered : Bool)
  /-- in the call of the scheduler -/
  | sched (triggered : Bool)
  /-- ended by a signal or by its timeout, and about to call it for the last time -/
  | last
  | returned
  deriving DecidableEq, Repr

/-- A call of `poll` on a file, for `POLLIN`, for `POLLOUT` or for both. -/
structure Poller where
  file : Nat
  wantsIn : Bool
  wantsOut : Bool
  phase : PollPhase
  deriving DecidableEq, Repr

namespace Poller

/-- A wake-up of a queue reaches the calls on it. -/
def wake (p : Poller) : Poller :=
  { p with
    phase := match p.phase with
      | .again _ => .again true
      | .sched _ => .sched true
      | phase => phase }

/-- The call sleeps. -/
def asleep (p : Poller) : Bool := p.phase = .sched false

/-- The mask has something for the call; errors and hang-ups are always reported. -/
def hit (p : Poller) (mask : PollMask) : Bool :=
  mask.pollerr || mask.pollhup || (p.wantsIn && mask.pollin) || (p.wantsOut && mask.pollout)

/-- After `scull_p_poll` the call returns or goes to sleep. -/
def scanned (p : Poller) (mask : PollMask) (triggered : Bool) : Poller × Option PollMask :=
  if p.hit mask then ({ p with phase := .returned }, some mask)
  else ({ p with phase := .sched triggered }, none)

end Poller

/-- The clients of a pipe, the calls of `poll`, the files on `async_q` with the latest first, and
the files of the writes that have still to call `kill_fasync`. -/
structure Watched where
  base : PipeState
  pollers : List Poller
  asyncQ : List Nat
  kills : List Nat

/-- What happens on a pipe and to those who watch it. -/
inductive WatchAction where
  | pipe (a : PipeAction)
  | poll (file : Nat) (wantsIn wantsOut : Bool)
  /-- a step of a call of `poll`, which may be ended by a signal or by its timeout -/
  | scan (p : Nat) (ends : Bool)
  /-- `scull_p_fasync` for `F_SETFL`, which may find no memory -/
  | fasync (file : Nat) (on alloc : Bool)
  /-- a write on the file gets to `kill_fasync` -/
  | kill (file : Nat)

/-- What a step shows: a step of a call on the pipe, the mask a call of `poll` returns, and the
files that get SIGIO. -/
structure WatchEffect where
  call : Effect := {}
  mask : Option PollMask := none
  sigio : List Nat := []

/-- The file that the action releases. -/
def PipeAction.releasedFile : PipeAction → Option Nat
  | .release file _ => some file
  | _ => none

/-- `scull_p_fasync`: an entry for a file that is not on `async_q` needs memory. -/
def scullPFasync (asyncQ : List Nat) (file : Nat) (on alloc : Bool) : List Nat :=
  if on then if alloc && !asyncQ.contains file then file :: asyncQ else asyncQ
  else asyncQ.filter fun file' => file' != file

/-- The action is an open or a release. -/
def PipeAction.changesHandles : PipeAction → Bool
  | .openFile .. | .release .. => true
  | _ => false

namespace PipeState

/-- The step wakes `inq` after a write. -/
def wakesInq (s : PipeState) : PipeAction → Bool
  | .task t _ => s.tasks[t]?.any Task.wakesInq
  | _ => false

/-- The file of the write that the step lets wake `inq`. -/
def writtenFile (s : PipeState) : PipeAction → Option Nat
  | .task t _ =>
      match s.tasks[t]? with
      | some (.writeWake file _) => some file
      | _ => none
  | _ => none

/-- The step wakes `outq` after a read. -/
def wakesOutq (s : PipeState) : PipeAction → Bool
  | .task t _ => s.tasks[t]?.any Task.wakesOutq
  | _ => false

/-- A wake-up of one of the queues is still to come. -/
def pending (s : PipeState) : Bool := s.inqPending || s.outqPending

/-- The proper FIFO has no writer. -/
def hungUp (s : PipeState) : Bool := s.pipe.idx == properFifoBehIdx && s.pipe.writers == 0

/-- The step hangs up the pipe. -/
def hangsUp (s : PipeState) (a : PipeAction) : Bool :=
  !s.hungUp && (s.step a).any fun r => r.1.hungUp

end PipeState

namespace Watched

/-- The module just loaded. -/
def init (idx : Nat) (tun : Tunables) : Watched := ⟨.init idx tun, [], [], []⟩

/-- One step of a call of `poll`. -/
def scanStep (s : Watched) (i : Nat) (p : Poller) (ends : Bool) : Option (Watched × WatchEffect) :=
  match p.phase with
  | .first =>
      let (p, mask) := p.scanned (scullPPoll s.base.pipe) false
      some ({ s with pollers := s.pollers.set i p }, { mask := mask })
  | .again triggered =>
      let (p, mask) := p.scanned (scullPPoll s.base.pipe) triggered
      some ({ s with pollers := s.pollers.set i p }, { mask := mask })
  | .sched triggered =>
      if ends then some ({ s with pollers := s.pollers.set i { p with phase := .last } }, {})
      else if triggered then
        some ({ s with pollers := s.pollers.set i { p with phase := .again false } }, {})
      else none
  | .last =>
      let mask := (p.scanned (scullPPoll s.base.pipe) false).2
      some ({ s with pollers := s.pollers.set i { p with phase := .returned } }, { mask := mask })
  | .returned => none

/-- One step. -/
def step (s : Watched) : WatchAction → Option (Watched × WatchEffect)
  | .pipe a =>
      -- a call of `poll` keeps its file open, and so does a write before `kill_fasync`
      if s.pollers.any (fun p => p.phase != .returned && a.releasedFile == some p.file) ||
          s.kills.any (fun file => a.releasedFile == some file) then none
      else
        (s.base.step a).map fun r =>
          ({ base := r.1
             pollers :=
              if s.base.wakesInq a || s.base.wakesOutq a then s.pollers.map Poller.wake
              else s.pollers
             -- a release calls `scull_p_fasync` before it takes the lock
             asyncQ := a.releasedFile.elim s.asyncQ fun file =>
              scullPFasync s.asyncQ file false false
             kills := (s.base.writtenFile a).toList ++ s.kills },
            { call := r.2 })
  | .poll file wantsIn wantsOut =>
      if (s.base.liveFile file).isSome then
        some ({ s with pollers := s.pollers ++ [⟨file, wantsIn, wantsOut, .first⟩] }, {})
      else none
  | .scan i ends => s.pollers[i]?.bind fun p => s.scanStep i p ends
  | .fasync file on alloc =>
      if (s.base.liveFile file).isSome then
        some ({ s with asyncQ := scullPFasync s.asyncQ file on alloc }, {})
      else none
  | .kill file =>
      if file ∈ s.kills then
        some ({ s with kills := s.kills.erase file }, { sigio := s.asyncQ })
      else none

/-- No call of `poll` sleeps while its file has something to report and nobody is about to wake
it. -/
def PollSafe (s : Watched) : Prop :=
  ∀ p ∈ s.pollers, NoneStranded (p.asleep = true) (p.hit (scullPPoll s.base.pipe) = true)
    (s.base.pending = true)

end Watched

/-! ## Wake-ups of the calls of `poll` -/

/-- A task that moves on leaves the others in the list. -/
theorem any_set_of_any {T : Type*} {p : T → Bool} {tasks : List T} {t : Nat} {old new : T}
    (h : tasks.any p = true) (htask : tasks[t]? = some old) (hold : p old = false) :
    (tasks.set t new).any p = true := by
  obtain ⟨x, hmem, hx⟩ := List.any_eq_true.mp h
  obtain ⟨j, hj⟩ := List.mem_iff_getElem?.mp hmem
  refine List.any_eq_true.mpr ⟨x, List.mem_of_getElem? (i := j) ?_, hx⟩
  rw [List.getElem?_set_ne, hj]
  rintro rfl
  rw [htask] at hj
  cases hj
  rw [hold] at hx
  cases hx

namespace PipeState

variable {u v : PipeState} {a : PipeAction} {e : Effect}

/-- A wake-up that is still to come stays so until it is made. -/
theorem Step.keeps_pending (h : Step u a e v) (hin : u.wakesInq a = false)
    (hout : u.wakesOutq a = false) (hpending : u.pending = true) : v.pending = true := by
  have hset : ∀ {t : Nat} {old new : Task} {pipe : ScullPipe} {files : List File},
      u.tasks[t]? = some old → old.wakesInq = false → old.wakesOutq = false →
      ({ u with pipe := pipe, files := files, tasks := u.tasks.set t new } : PipeState).pending =
        true := by
    intro t old new pipe files htask hin hout
    rcases Bool.or_eq_true_iff.mp hpending with hp | hp
    · exact Bool.or_eq_true_iff.mpr (.inl (any_set_of_any hp htask hin))
    · exact Bool.or_eq_true_iff.mpr (.inr (any_set_of_any hp htask hout))
  have hadd : ∀ {pipe : ScullPipe} {new : Task}, (u.addTask pipe new).pending = true := by
    intro pipe new
    simp only [pending, inqPending, outqPending, addTask, List.any_append, Bool.or_eq_true] at *
    tauto
  have hopenq : ∀ {pipe : ScullPipe} {files : List File} (wakeOpenq : Bool),
      ({ u with
        pipe := pipe
        files := files
        tasks := if wakeOpenq then u.tasks.map Task.wakeOpenq else u.tasks } : PipeState).pending =
        true := by
    intro pipe files wakeOpenq
    simp only [pending, inqPending, outqPending]
    rw [any_wake_openq (r := Task.wakesInq) _ (fun task => by cases task <;> rfl),
      any_wake_openq (r := Task.wakesOutq) _ (fun task => by cases task <;> rfl)]
    exact hpending
  cases h with
  | openInterrupted | openFailed | readInterrupted | writeInterrupted | ioctl
  | releaseInterrupted | released => exact hpending
  | openWaits | endOfFile | read | write => exact hadd
  | opened mode nonblock ch pipe wakeOpenq => exact hopenq wakeOpenq
  | readWait t ch file count phase next htask | readSignalled t ch file count phase htask
  | readAgain t ch file count pipe task e htask | writeWait t ch file data phase next htask
  | writeSignalled t ch file data phase htask | writeAgain t ch file data pipe task e htask
  | openWait t ch mode nonblock phase next htask | openSignalled t ch mode nonblock phase htask
  | openedAgain t ch mode nonblock htask => exact hset htask rfl rfl
  | readWake t ch file count htask =>
      simp [wakesOutq, htask, Task.wakesOutq] at hout
  | writeWake t ch file count htask =>
      simp [wakesInq, htask, Task.wakesInq] at hin

/-- An open or a release owes no wake-up of the queues and makes none. -/
theorem Step.pending_eq (h : Step u a e v) (ha : a.changesHandles = true) :
    v.pending = u.pending := by
  cases h with
  | openInterrupted | openFailed | releaseInterrupted | released => rfl
  | openWaits => simp [pending, inqPending, outqPending, Task.wakesInq, Task.wakesOutq]
  | opened mode nonblock ch pipe wakeOpenq =>
      simp only [pending, inqPending, outqPending]
      rw [any_wake_openq (r := Task.wakesInq) _ (fun task => by cases task <;> rfl),
        any_wake_openq (r := Task.wakesOutq) _ (fun task => by cases task <;> rfl)]
  | _ => cases ha

/-- Only an open or a release changes the number of writers. -/
theorem Step.hung_up_eq (h : Step u a e v) (ha : a.changesHandles = false) :
    v.hungUp = u.hungUp := by
  have hsame : ∀ {dev dev' : ScullPipe}, dev'.idx = dev.idx → dev'.writers = dev.writers →
      (dev'.idx == properFifoBehIdx && dev'.writers == 0) =
        (dev.idx == properFifoBehIdx && dev.writers == 0) := by
    intro dev dev' hidx hwriters
    rw [hidx, hwriters]
  cases h with
  | openInterrupted | openFailed | openWaits | opened | releaseInterrupted | released => cases ha
  | read file f count ch pipe task e _ _ _ _ hsection
  | readAgain t ch file count pipe task e _ _ hsection =>
      obtain ⟨hidx, -, -, hwriters, -⟩ := scull_p_read_handles hsection
      exact hsame hidx hwriters
  | write file f data ch pipe task e _ _ _ _ hsection
  | writeAgain t ch file data pipe task e _ _ hsection =>
      obtain ⟨hidx, -, -, hwriters, -⟩ := scull_p_write_handles hsection
      exact hsame hidx hwriters
  | _ => rfl

/-- A step that hangs up the pipe is an open or a release. -/
theorem changes_handles_of_hangs_up (h : u.step a = some (v, e)) (hhang : u.hangsUp a = true) :
    a.changesHandles = true ∧ v.hungUp = true := by
  unfold hangsUp at hhang
  rw [h, Bool.and_eq_true, Bool.not_eq_true', Option.any_some] at hhang
  refine ⟨?_, hhang.2⟩
  by_contra hother
  have hsame := (step_sound h).hung_up_eq (Bool.not_eq_true _ ▸ hother)
  rw [hhang.1, hhang.2] at hsame
  cases hsame

/-- A file stays open until it is released. -/
theorem Step.live (h : Step u a e v) {file : Nat} (ha : a.releasedFile ≠ some file)
    (hlive : (u.liveFile file).isSome = true) : (v.liveFile file).isSome = true := by
  obtain ⟨f, hf⟩ := Option.isSome_iff_exists.mp hlive
  obtain ⟨hfile, hopen⟩ := live_file_eq_some hf
  have hsame : v.files[file]? = u.files[file]? → (v.liveFile file).isSome = true := by
    intro hfiles
    simp [liveFile, hfiles, hfile, hopen]
  have hadd : ∀ {g : File}, v.files = u.files ++ [g] → (v.liveFile file).isSome = true := by
    intro g hfiles
    have hbound := (List.getElem?_eq_some_iff.mp hfile).1
    exact hsame (by rw [hfiles, List.getElem?_append_left hbound])
  cases h with
  | opened | openedAgain => exact hadd rfl
  | releaseInterrupted file' | released file' =>
      have hne : file' ≠ file := fun heq => ha (congrArg some heq)
      exact hsame (List.getElem?_set_ne hne)
  | _ => exact hsame rfl

theorem changes_handles_of_resets (h : u.resets a = true) : a.changesHandles = true := by
  cases a with
  | openFile mode nonblock ch => rfl
  | _ => cases h

end PipeState

/-- What a call of `poll` finds: a hang-up, bytes or space. -/
theorem Poller.hit_iff (p : Poller) (s : PipeState) :
    p.hit (scullPPoll s.pipe) = true ↔ s.hungUp = true ∨
      (p.wantsIn = true ∧ s.pipe.rp ≠ s.pipe.wp) ∨
      (p.wantsOut = true ∧ spacefree s.pipe ≠ 0) := by
  by_cases hhung : s.pipe.idx = properFifoBehIdx ∧ s.pipe.writers = 0
  · simp [Poller.hit, scullPPoll, PipeState.hungUp, hhung]
  · have hfalse : s.hungUp = false := by
      rw [PipeState.hungUp, Bool.and_eq_false_iff, beq_eq_false_iff_ne, beq_eq_false_iff_ne]
      exact not_and_or.mp hhung
    simp [Poller.hit, scullPPoll, if_neg hhung, hfalse]

/-- A pipe that has been set up with a length of at least two has space. -/
theorem SetUp.spacefree_ne_zero {dev dev' : ScullPipe} {len : Nat} (h : SetUp dev len dev')
    (hlen : 2 ≤ len) (hfits : len < 2 ^ 64) : spacefree dev' ≠ 0 := by
  rw [spacefree, if_pos (h.rp.trans h.wp.symm), h.bufLen, size_sub_of_le (by omega) hfits]
  omega

namespace Watched

variable {s t : Watched} {e : WatchEffect}

/-- An open gets through the buffer set-up, or a step hangs up the pipe, while a call of `poll`
sleeps that waits for it and nobody is about to wake it. -/
def StrandsPoller (s : Watched) : WatchAction → Prop
  | .pipe a => s.base.pending = false ∧ ∃ p ∈ s.pollers, p.asleep = true ∧
      ((s.base.resets a = true ∧ p.wantsOut = true) ∨ s.base.hangsUp a = true)
  | _ => False

/-- A step of a call on the pipe, and what those who watch it notice. -/
theorem pipe_step {a : PipeAction} (h : s.step (.pipe a) = some (t, e)) :
    s.base.step a = some (t.base, e.call) ∧
      t.pollers = (if s.base.wakesInq a || s.base.wakesOutq a then s.pollers.map Poller.wake
        else s.pollers) ∧
      t.asyncQ = a.releasedFile.elim s.asyncQ (scullPFasync s.asyncQ · false false) := by
  unfold step at h
  dsimp only at h
  split_ifs at h
  all_goals
    obtain ⟨r, hr, heq⟩ := Option.map_eq_some_iff.mp h
    cases heq
    simp_all

/-- A wake-up leaves no call of `poll` asleep. -/
theorem asleep_wake (p : Poller) : p.wake.asleep = false := by
  unfold Poller.wake Poller.asleep
  cases p.phase <;> rfl

/-- A step on the pipe that is not one of the two strands no call of `poll`. -/
theorem PollSafe.pipe (hs : s.PollSafe) {a : PipeAction} (h : s.step (.pipe a) = some (t, e))
    (hguard : ¬ s.StrandsPoller (.pipe a)) : t.PollSafe := by
  obtain ⟨hbase, hpollers, -⟩ := pipe_step h
  have hstep := PipeState.step_sound hbase
  intro p hp hasleep hhit
  rw [hpollers] at hp
  split_ifs at hp with hwakes
  · obtain ⟨q, -, rfl⟩ := List.mem_map.mp hp
    rw [asleep_wake] at hasleep
    cases hasleep
  rw [Bool.not_eq_true, Bool.or_eq_false_iff] at hwakes
  cases hpending : s.base.pending with
  | true => exact hstep.keeps_pending hwakes.1 hwakes.2 hpending
  | false =>
      have hmissed : ¬ p.hit (scullPPoll s.base.pipe) = true := by
        intro hbefore
        rw [hs p hp hasleep hbefore] at hpending
        cases hpending
      rw [p.hit_iff, not_or, not_or] at hmissed
      obtain ⟨hhung, hin, hout⟩ := hmissed
      have hquiet : ¬ ((s.base.resets a = true ∧ p.wantsOut = true) ∨
          s.base.hangsUp a = true) := fun hcase => hguard ⟨hpending, p, hp, hasleep, hcase⟩
      rcases (p.hit_iff t.base).mp hhit with hhung' | ⟨hwants, hbytes⟩ | ⟨hwants, hspace⟩
      · refine absurd (.inr ?_) hquiet
        simp [PipeState.hangsUp, hbase, hhung, hhung']
      · rcases hstep.inq.makes hbytes with hbefore | hwill
        · exact absurd ⟨hwants, hbefore⟩ hin
        · exact Bool.or_eq_true_iff.mpr (.inl hwill)
      · have hreset : s.base.resets a = false := by
          rw [← Bool.not_eq_true]
          exact fun hreset => hquiet (.inl ⟨hreset, hwants⟩)
        rcases (hstep.outq hreset).makes hspace with hbefore | hwill
        · exact absurd ⟨hwants, hbefore⟩ hout
        · exact Bool.or_eq_true_iff.mpr (.inr hwill)

/-- A call of `poll` falls asleep only when its file has nothing to report. -/
theorem scanned_asleep {p : Poller} {mask : PollMask} {triggered : Bool}
    (h : (p.scanned mask triggered).1.asleep = true) :
    (p.scanned mask triggered).1.hit mask = false := by
  unfold Poller.scanned at h ⊢
  split_ifs at h ⊢ with hhit
  · cases h
  · exact Bool.not_eq_true _ ▸ hhit

/-- A call of `poll` moves on. -/
theorem PollSafe.set (hs : s.PollSafe) (i : Nat) {p : Poller}
    (hp : p.asleep = true → p.hit (scullPPoll s.base.pipe) = false) :
    ({ s with pollers := s.pollers.set i p } : Watched).PollSafe := by
  intro q hq hasleep hhit
  rcases List.mem_or_eq_of_mem_set hq with hold | rfl
  · exact hs q hold hasleep hhit
  · rw [hp hasleep] at hhit
    cases hhit

/-- A step of a call of `poll` changes that call alone. -/
theorem scan_step_cases {i : Nat} {p : Poller} {ends : Bool}
    (h : s.scanStep i p ends = some (t, e)) :
    ∃ q : Poller, (q.asleep = true → q.hit (scullPPoll s.base.pipe) = false) ∧
      t = { s with pollers := s.pollers.set i q } := by
  unfold scanStep at h
  split at h
  · cases h
    exact ⟨_, scanned_asleep, rfl⟩
  · cases h
    exact ⟨_, scanned_asleep, rfl⟩
  · split_ifs at h
    · cases h
      exact ⟨{ p with phase := .last }, nofun, rfl⟩
    · cases h
      exact ⟨{ p with phase := .again false }, nofun, rfl⟩
  · cases h
    exact ⟨{ p with phase := .returned }, nofun, rfl⟩
  · cases h

/-- What a step does that is not a step of a call on the pipe. -/
inductive OtherStep (s : Watched) : WatchAction → Watched → Prop where
  | poll (file wantsIn wantsOut) :
      OtherStep s (.poll file wantsIn wantsOut)
        { s with pollers := s.pollers ++ [⟨file, wantsIn, wantsOut, .first⟩] }
  | scan (i ends q) : (q.asleep = true → q.hit (scullPPoll s.base.pipe) = false) →
      OtherStep s (.scan i ends) { s with pollers := s.pollers.set i q }
  | fasync (file on alloc) : (s.base.liveFile file).isSome = true →
      OtherStep s (.fasync file on alloc) { s with asyncQ := scullPFasync s.asyncQ file on alloc }
  | kill (file) : OtherStep s (.kill file) { s with kills := s.kills.erase file }

theorem other_step {a : WatchAction} (h : s.step a = some (t, e)) (ha : ∀ b, a ≠ .pipe b) :
    OtherStep s a t := by
  cases a with
  | pipe b => exact absurd rfl (ha b)
  | poll file wantsIn wantsOut =>
      simp only [step] at h
      split_ifs at h
      cases h
      exact .poll file wantsIn wantsOut
  | scan i ends =>
      obtain ⟨p, -, hscan⟩ := Option.bind_eq_some_iff.mp h
      obtain ⟨q, hq, rfl⟩ := scan_step_cases hscan
      exact .scan i ends q hq
  | fasync file on alloc =>
      simp only [step] at h
      split_ifs at h with hlive
      cases h
      exact .fasync file on alloc hlive
  | kill file =>
      simp only [step] at h
      split_ifs at h
      cases h
      exact .kill file

/-- A step that is not a step of a call on the pipe strands nobody. -/
theorem PollSafe.other (hs : s.PollSafe) {a : WatchAction} (h : OtherStep s a t) :
    t.PollSafe := by
  cases h with
  | poll file wantsIn wantsOut =>
      intro p hp hasleep hhit
      rcases List.mem_append.mp hp with hold | hnew
      · exact hs p hold hasleep hhit
      · cases List.mem_singleton.mp hnew
        cases hasleep
  | scan i ends q hq => exact hs.set i hq
  | fasync | kill => exact hs

theorem OtherStep.base {a : WatchAction} (h : OtherStep s a t) : t.base = s.base := by
  cases h <;> rfl

/-- A step that strands a call of `poll` leaves something to report and nobody to announce it. -/
theorem StrandsPoller.not_safe {a : WatchAction} (hstrands : s.StrandsPoller a)
    (h : s.step a = some (t, e)) (hlen : 2 ≤ s.base.tun.scullPLen)
    (hfits : s.base.tun.scullPLen < 2 ^ 64) : ¬ t.PollSafe := by
  cases a with
  | pipe a =>
      obtain ⟨hpending, p, hp, hasleep, hcase⟩ := hstrands
      obtain ⟨hbase, hpollers, -⟩ := pipe_step h
      have hstep := PipeState.step_sound hbase
      have hhandles : a.changesHandles = true := by
        rcases hcase with ⟨hreset, -⟩ | hhang
        · exact PipeState.changes_handles_of_resets hreset
        · exact (PipeState.changes_handles_of_hangs_up hbase hhang).1
      have hstays : p ∈ t.pollers := by
        have hquiet : (s.base.wakesInq a || s.base.wakesOutq a) = false := by
          cases a <;> first | rfl | cases hhandles
        rw [hpollers, hquiet]
        exact hp
      have hhit : p.hit (scullPPoll t.base.pipe) = true := by
        refine (p.hit_iff t.base).mpr ?_
        rcases hcase with ⟨hreset, hwants⟩ | hhang
        · exact .inr (.inr ⟨hwants, (hstep.reset hreset).1.spacefree_ne_zero hlen hfits⟩)
        · exact .inl (PipeState.changes_handles_of_hangs_up hbase hhang).2
      intro hsafe
      have hwill := hsafe p hstays hasleep hhit
      rw [hstep.pending_eq hhandles, hpending] at hwill
      cases hwill
  | _ => cases hstrands

/-- Wake-ups of the calls of `poll` on a pipe whose length is at least two. In a run from module
load without an ioctl, no call of `poll` is ever asleep while its file has something to report and
no wake-up of the queues is still to come, exactly when, while no wake-up is due, no open gets
through the buffer set-up past a sleeping call that waits for space and no step takes the last
writer of the proper FIFO past a sleeping call. -/
theorem poll_wakeups_iff (idx : Nat) (tun : Tunables) (hlen : 2 ≤ tun.scullPLen)
    (hfits : tun.scullPLen < 2 ^ 64) (actions : List WatchAction)
    (hcalls : ∀ b, WatchAction.pipe b ∈ actions → b.isIoctl = false) :
    (∀ t, Machine.Visits step (init idx tun) actions t → PollSafe t) ↔
      ∀ t a e t', Machine.Takes step (init idx tun) actions t a e t' → ¬ StrandsPoller t a := by
  refine Machine.visits_iff_guarded (I := fun t => t.base.tun = tun ∧ PollSafe t)
    (S := fun _ a _ _ => ∀ b, a = .pipe b → b.isIoctl = false) ?_ (fun t ht => ht.2) ?_
    ⟨rfl, fun p hp => by cases hp⟩ ?_
  · rintro t a e t' ⟨htun, hsafe⟩ ha hguard hstep
    by_cases hpipe : ∃ b, a = .pipe b
    · obtain ⟨b, rfl⟩ := hpipe
      have hs := PipeState.step_sound (pipe_step hstep).1
      exact ⟨(hs.tun (ha b rfl)).trans htun, hsafe.pipe hstep hguard⟩
    · have hother := other_step hstep (fun b hb => hpipe ⟨b, hb⟩)
      exact ⟨by rw [hother.base, htun], hsafe.other hother⟩
  · rintro t a e t' ⟨htun, -⟩ - hstep hsafe hstrands
    exact hstrands.not_safe hstep (htun ▸ hlen) (htun ▸ hfits) hsafe
  · rintro t a e t' htake b rfl
    exact hcalls b htake.action_mem

/-- A reader of the proper FIFO polls for bytes and falls asleep; then the only writer leaves. -/
def hangUpRun : List WatchAction :=
  [.pipe (.openFile .wronly false {}), .pipe (.openFile .rdonly false {}), .poll 1 true false,
    .scan 0 false, .pipe (.release 0 {})]

/-- The run completes, and the reader sleeps on. -/
theorem poll_wakeups_hangup :
    (Machine.run step (init properFifoBehIdx ⟨4000, 1000, 4000⟩) hangUpRun).isSome = true ∧
      ¬ ∀ t, Machine.Visits step (init properFifoBehIdx ⟨4000, 1000, 4000⟩) hangUpRun t →
        PollSafe t := by
  refine ⟨rfl, fun hsafe => ?_⟩
  have hguard := (poll_wakeups_iff properFifoBehIdx ⟨4000, 1000, 4000⟩ (by decide) (by decide)
    hangUpRun (by simp [hangUpRun, PipeAction.isIoctl])).mp hsafe
  refine hguard _ _ _ _
    (.later rfl (.later rfl (.later rfl (.later rfl (.here [] rfl))))) ?_
  exact ⟨rfl, ⟨1, true, false, .sched false⟩, List.mem_singleton.mpr rfl, rfl, .inr rfl⟩

/-! ## The receivers of SIGIO -/

/-- What an action does to the registration of a file on `async_q`. -/
def registers (file : Nat) : WatchAction → Option Bool
  | .fasync file' on alloc =>
      if file' = file then if on then if alloc then some true else none else some false else none
  | .pipe a => if a.releasedFile = some file then some false else none
  | _ => none

/-- The last action of the list on the registration of the file left it on `async_q`. -/
def registered (file : Nat) (actions : List WatchAction) : Bool :=
  (actions.filterMap (registers file)).getLast?.getD false

theorem registered_append (file : Nat) (actions : List WatchAction) (a : WatchAction) :
    registered file (actions ++ [a]) = (registers file a).getD (registered file actions) := by
  unfold registered
  rw [List.filterMap_append]
  cases h : registers file a <;> simp [h]

/-- The entries of `async_q` after `scull_p_fasync`. -/
theorem mem_scull_p_fasync {asyncQ : List Nat} {file file' : Nat} {on alloc : Bool} :
    file' ∈ scullPFasync asyncQ file on alloc ↔
      if file' = file then on = true ∧ (alloc = true ∨ file' ∈ asyncQ) else file' ∈ asyncQ := by
  unfold scullPFasync
  by_cases hfile : file' = file
  · subst hfile
    cases on <;> cases alloc <;> by_cases hmem : file' ∈ asyncQ <;> simp [hmem]
  · cases on
    · simp [hfile]
    · by_cases hnew : (alloc && !asyncQ.contains file) = true
      · rw [if_pos rfl, if_pos hnew, List.mem_cons, if_neg hfile]
        exact or_iff_right hfile
      · rw [if_pos rfl, if_neg hnew, if_neg hfile]

theorem nodup_scull_p_fasync {asyncQ : List Nat} (h : asyncQ.Nodup) (file : Nat)
    (on alloc : Bool) : (scullPFasync asyncQ file on alloc).Nodup := by
  unfold scullPFasync
  split_ifs with hon hnew
  · obtain ⟨-, hnew⟩ := Bool.and_eq_true_iff.mp hnew
    exact List.nodup_cons.mpr ⟨by simpa using hnew, h⟩
  · exact h
  · exact h.filter _

/-- A release takes its file off `async_q` before it takes the lock. -/
theorem mem_after_release {a : PipeAction} {asyncQ : List Nat} {file : Nat} :
    file ∈ a.releasedFile.elim asyncQ (scullPFasync asyncQ · false false) ↔
      a.releasedFile ≠ some file ∧ file ∈ asyncQ := by
  cases a.releasedFile with
  | none => simp
  | some file' =>
      rw [Option.elim_some, mem_scull_p_fasync]
      by_cases hfile : file = file'
      · simp [hfile]
      · simp [hfile, Ne.symm hfile]

/-- A step puts files on `async_q` and takes them off it as its action says. -/
theorem mem_async_q_step {a : WatchAction} (h : s.step a = some (t, e)) (file : Nat) :
    file ∈ t.asyncQ ↔ (registers file a).getD (decide (file ∈ s.asyncQ)) = true := by
  by_cases hpipe : ∃ b, a = .pipe b
  · obtain ⟨b, rfl⟩ := hpipe
    rw [(pipe_step h).2.2, mem_after_release, registers]
    by_cases hreleased : b.releasedFile = some file <;> simp [hreleased]
  cases other_step h (fun b hb => hpipe ⟨b, hb⟩) with
  | poll | scan | kill => simp [registers]
  | fasync file' on alloc hlive =>
      show file ∈ scullPFasync s.asyncQ file' on alloc ↔ _
      rw [mem_scull_p_fasync, registers]
      by_cases hfile : file = file'
      · subst hfile
        cases on <;> cases alloc <;> simp
      · simp [hfile, Ne.symm hfile]

/-- What `async_q` holds after the actions of a history: each file once, those that are still
registered, and only files that are open. -/
structure Notifies (s : Watched) (history : List WatchAction) : Prop where
  nodup : s.asyncQ.Nodup
  mem_iff : ∀ file, file ∈ s.asyncQ ↔ registered file history = true
  live : ∀ file ∈ s.asyncQ, (s.base.liveFile file).isSome = true

theorem Notifies.step {history : List WatchAction} (h : s.Notifies history) {a : WatchAction}
    (hstep : s.step a = some (t, e)) : t.Notifies (history ++ [a]) := by
  have hmem : ∀ file, file ∈ t.asyncQ ↔ registered file (history ++ [a]) = true := by
    intro file
    have hbefore : decide (file ∈ s.asyncQ) = registered file history := by
      rw [Bool.eq_iff_iff, decide_eq_true_iff]
      exact h.mem_iff file
    rw [mem_async_q_step hstep, registered_append, hbefore]
  by_cases hpipe : ∃ b, a = .pipe b
  · obtain ⟨b, rfl⟩ := hpipe
    obtain ⟨hbase, -, hasync⟩ := pipe_step hstep
    refine ⟨?_, hmem, ?_⟩
    · rw [hasync]
      cases b.releasedFile with
      | none => exact h.nodup
      | some file => exact nodup_scull_p_fasync h.nodup file false false
    · intro file hfile
      rw [hasync, mem_after_release] at hfile
      exact (PipeState.step_sound hbase).live hfile.1 (h.live file hfile.2)
  · cases other_step hstep (fun b hb => hpipe ⟨b, hb⟩) with
    | poll | scan | kill => exact ⟨h.nodup, hmem, h.live⟩
    | fasync file on alloc hlive =>
        refine ⟨nodup_scull_p_fasync h.nodup file on alloc, hmem, fun file' hfile' => ?_⟩
        rw [mem_scull_p_fasync] at hfile'
        split_ifs at hfile' with hsame
        · rw [hsame]
          exact hlive
        · exact h.live file' hfile'

/-- The signals of a write. Whenever a write gets to `kill_fasync`, each receiver of SIGIO is an
open file and is named once, and the receivers are exactly the files whose last successful
registration has been undone neither by `F_SETFL` nor by a release, an interrupted one included. -/
theorem sigio_exact (idx : Nat) (tun : Tunables) {actions : List WatchAction}
    {es : List WatchEffect} {file : Nat}
    (hrun : Machine.run step (init idx tun) actions = some (s, es))
    (hkill : s.step (.kill file) = some (t, e)) :
    e.sigio.Nodup ∧ (∀ f, f ∈ e.sigio ↔ registered f actions = true) ∧
      ∀ f ∈ e.sigio, (s.base.liveFile f).isSome = true := by
  have hinit : (init idx tun).Notifies (([] : List (WatchAction × WatchEffect)).map Prod.fst) :=
    ⟨List.nodup_nil, fun f => by simp [init, registered], fun f hf => by cases hf⟩
  have hnotifies : s.Notifies (([] ++ actions.zip es).map Prod.fst) := by
    refine Machine.run_history (R := fun s history => s.Notifies (history.map Prod.fst)) ?_ hinit
      hrun
    intro u a e' v history htake hu
    rw [List.map_append]
    exact hu.step htake.step_eq
  have hlength := Machine.run_length hrun
  rw [List.nil_append, List.map_fst_zip (by omega)] at hnotifies
  simp only [step] at hkill
  split_ifs at hkill
  cases hkill
  exact ⟨hnotifies.nodup, hnotifies.mem_iff, hnotifies.live⟩

/-- Two files ask for the signal; one of them is released while a write on the other is on its
way, and its release is interrupted. -/
def signalRun : List WatchAction :=
  [.pipe (.openFile .rdwr false {}), .pipe (.openFile .rdonly false {}), .fasync 0 true true,
    .fasync 1 true true, .pipe (.write 0 [1] {}), .pipe (.release 1 { intr := true }),
    .pipe (.task 0 {})]

/-- The run completes, and the write signals the file that is left. -/
theorem sigio_exact_released : ∃ s es t e,
    Machine.run step (init 0 ⟨4000, 1000, 4000⟩) signalRun = some (s, es) ∧
      s.step (.kill 0) = some (t, e) ∧ 0 ∈ e.sigio ∧ 1 ∉ e.sigio := by
  have hsome : ((Machine.run step (init 0 ⟨4000, 1000, 4000⟩) signalRun).bind fun r =>
      r.1.step (.kill 0)).isSome = true := rfl
  obtain ⟨⟨t, e⟩, hboth⟩ := Option.isSome_iff_exists.mp hsome
  obtain ⟨⟨s, es⟩, hrun, hkill⟩ := Option.bind_eq_some_iff.mp hboth
  have hexact := (sigio_exact 0 ⟨4000, 1000, 4000⟩ hrun hkill).2.1
  exact ⟨s, es, t, e, hrun, hkill, (hexact 0).mpr rfl, fun hmem => by cases (hexact 1).mp hmem⟩

end Watched

end Ldd3.Scull
