import Ldd3.Scull.PipeMachine

/-!
# Handle accounting of the pipes

How the counters `readers` and `writers` and the life of the buffer follow the files that are
open. `HandleStep` lists what a step can do to them. On the ordinary pipes the counters never
fall below the number of open files and the buffer lives as long as one of them
(`ordinary_pipe_accounting`). On the proper FIFO an open with `O_RDWR` counts as a reader only,
while its release counts it twice; `proper_fifo_accounting_iff` says that these opens are the
only ones that break the accounting.
-/

namespace Ldd3.Scull

/-- The file is open and has `FMODE_READ`. -/
def File.reads (f : File) : Bool := f.live && f.mode.read

/-- The file is open and has `FMODE_WRITE`. -/
def File.writes (f : File) : Bool := f.live && f.mode.write

/-- The call is an open that waits for a writer. -/
def Task.isOpenWait : Task → Bool
  | openWait _ _ _ => true
  | _ => false

/-- A waiting open is one for reading, of the proper FIFO. -/
def Task.OpenWaitReads (idx : Nat) : Task → Prop
  | openWait mode _ _ => idx = properFifoBehIdx ∧ mode.read = true
  | _ => True

/-- The number of elements with a property, after one element is replaced. -/
theorem countP_set_add {α : Type*} (p : α → Bool) {l : List α} {i : Nat} {old : α} (new : α)
    (h : l[i]? = some old) :
    (l.set i new).countP p + (if p old then 1 else 0) =
      l.countP p + (if p new then 1 else 0) := by
  obtain ⟨hlt, rfl⟩ := List.getElem?_eq_some_iff.mp h
  have hle := List.boole_getElem_le_countP (p := p) hlt
  rw [List.countP_set hlt]
  omega

namespace PipeState

/-- The number of open files with `FMODE_READ`. -/
def readersOpen (s : PipeState) : Nat := s.files.countP File.reads

/-- The number of open files with `FMODE_WRITE`. -/
def writersOpen (s : PipeState) : Nat := s.files.countP File.writes

/-- The number of open files. -/
def filesOpen (s : PipeState) : Nat := s.files.countP File.live

/-- The number of opens that wait for a writer. -/
def opensWaiting (s : PipeState) : Nat := s.tasks.countP Task.isOpenWait

/-- The readers counted for files, without the opens that still wait. -/
def settledReaders (s : PipeState) : Int := s.pipe.readers - s.opensWaiting

/-- Only opens of the proper FIFO for reading wait for a writer. -/
def OpenWaitsRead (s : PipeState) : Prop :=
  ∀ task ∈ s.tasks, task.OpenWaitReads s.pipe.idx

/-- The step is the locked section of a read or a write that passes its test. -/
def passesTest (s : PipeState) : PipeAction → Bool
  | .read _ _ ch => !ch.intr && s.pipe.rp != s.pipe.wp
  | .write _ _ ch => !ch.intr && spacefree s.pipe != 0
  | .task t ch =>
      match s.tasks[t]? with
      | some (.readWait _ _ .relock) => !ch.intr && s.pipe.rp != s.pipe.wp
      | some (.writeWait _ _ .relock) => !ch.intr && spacefree s.pipe != 0
      | _ => false
  | _ => false

/-- A read or a write that passes its test has a buffer, so that a pointer that reaches the end of
the buffer does not become `NULL`. -/
def HasBuffer (s : PipeState) (a : PipeAction) : Prop :=
  s.passesTest a = true → s.pipe.buf.isSome = true

/-- A run that passes a test has a buffer where it needs one. -/
theorem has_buffer_of_admits {s₀ : PipeState} {actions : List PipeAction}
    (h : Machine.admits step (fun s a => !s.passesTest a || s.pipe.buf.isSome) s₀ actions = true) :
    ∀ t a e t', Machine.Takes step s₀ actions t a e t' → HasBuffer t a := by
  intro t a e t' htake hpasses
  have htest := Machine.guard_of_admits h t a e t' htake
  rw [hpasses] at htest
  exact htest

variable {s : PipeState}

/-- An open file is open for reading or for writing. -/
theorem files_open_le (s : PipeState) : s.filesOpen ≤ s.readersOpen + s.writersOpen := by
  unfold filesOpen readersOpen writersOpen
  induction s.files with
  | nil => simp
  | cons f rest ih =>
      simp only [List.countP_cons]
      have hf : (if f.live = true then 1 else 0) ≤
          (if f.reads = true then 1 else 0) + (if f.writes = true then 1 else 0) := by
        rcases f with ⟨mode, nonblock, live⟩
        cases mode <;> cases live <;> simp [File.reads, File.writes, AccMode.read, AccMode.write]
      omega

theorem readers_open_le (s : PipeState) : s.readersOpen ≤ s.filesOpen :=
  List.countP_mono_left fun f _ hf => by
    simp only [File.reads, Bool.and_eq_true] at hf
    exact hf.1

theorem writers_open_le (s : PipeState) : s.writersOpen ≤ s.filesOpen :=
  List.countP_mono_left fun f _ hf => by
    simp only [File.writes, Bool.and_eq_true] at hf
    exact hf.1

end PipeState

/-- The locked section of a read leaves the counters and the buffer alone. -/
theorem scull_p_read_handles {dev dev' : ScullPipe} {nonblock : Bool} {file count : Nat}
    {ch : Choice} {task : Task} {e : Effect}
    (h : scullPRead dev nonblock file count ch = (dev', task, e)) :
    dev'.idx = dev.idx ∧ dev'.buf = dev.buf ∧ dev'.readers = dev.readers ∧
      dev'.writers = dev.writers ∧ task.isOpenWait = false ∧ task.file ∈ [none, some file] := by
  unfold scullPRead at h
  split at h
  · split at h <;> cases h <;> exact ⟨rfl, rfl, rfl, rfl, rfl, by simp [Task.file]⟩
  · split at h <;> cases h <;> exact ⟨rfl, rfl, rfl, rfl, rfl, by simp [Task.file]⟩

/-- The locked section of a write leaves the counters and the buffer alone. -/
theorem scull_p_write_handles {dev dev' : ScullPipe} {nonblock : Bool} {file : Nat}
    {data : List UInt8} {ch : Choice} {task : Task} {e : Effect}
    (h : scullPWrite dev nonblock file data ch = (dev', task, e)) :
    dev'.idx = dev.idx ∧ dev'.buf = dev.buf ∧ dev'.readers = dev.readers ∧
      dev'.writers = dev.writers ∧ task.isOpenWait = false ∧ task.file ∈ [none, some file] := by
  unfold scullPWrite at h
  split at h
  · split at h <;> cases h <;> exact ⟨rfl, rfl, rfl, rfl, rfl, by simp [Task.file]⟩
  · split at h <;> cases h <;> exact ⟨rfl, rfl, rfl, rfl, rfl, by simp [Task.file]⟩

namespace PipeState

/-- What a step does to the files, the counters and the buffer. -/
inductive HandleStep (u v : PipeState) (e : Effect) : Prop where
  | frame :
      v.files = u.files → v.pipe.buf = u.pipe.buf → v.settledReaders = u.settledReaders →
      v.pipe.writers = u.pipe.writers → HandleStep u v e
  /-- an open of the proper FIFO failed after it was counted -/
  | leaked (err) :
      u.pipe.idx = properFifoBehIdx → e.ret = some (.openFailed err) → HandleStep u v e
  /-- an open that ran the buffer set-up succeeded -/
  | opened (f : File) :
      f.live = true → (u.pipe.idx = properFifoBehIdx → f.mode = .wronly) →
      v.files = u.files ++ [f] → v.pipe.buf.isSome = true →
      v.settledReaders = u.settledReaders + (if f.mode.read then 1 else 0) →
      v.pipe.writers = u.pipe.writers + (if f.mode.write then 1 else 0) → HandleStep u v e
  /-- an open of the proper FIFO for reading succeeded, at once or after a wait -/
  | openedReader (f : File) :
      f.live = true → u.pipe.idx = properFifoBehIdx → f.mode.read = true →
      v.files = u.files ++ [f] → v.pipe.buf = u.pipe.buf →
      v.settledReaders = u.settledReaders + 1 → u.pipe.writers ≠ 0 →
      v.pipe.writers = u.pipe.writers → HandleStep u v e
  /-- a release was interrupted -/
  | forgotten (file : Nat) (f : File) :
      u.files[file]? = some f → f.live = true → e.ret = some (.releaseFailed .ERESTARTSYS) →
      v.files = u.files.set file { f with live := false } → v.pipe.buf = u.pipe.buf →
      v.settledReaders = u.settledReaders → v.pipe.writers = u.pipe.writers → HandleStep u v e
  | released (file : Nat) (f : File) :
      u.files[file]? = some f → f.live = true →
      v.files = u.files.set file { f with live := false } →
      v.pipe.buf = (if v.settledReaders + v.opensWaiting + v.pipe.writers = 0 then none
        else u.pipe.buf) →
      v.settledReaders = u.settledReaders - (if f.mode.read then 1 else 0) →
      v.pipe.writers = u.pipe.writers - (if f.mode.write then 1 else 0) → HandleStep u v e

variable {u v : PipeState} {a : PipeAction} {e : Effect}

/-- A step that changes at most one task, and neither makes nor ends a waiting open, keeps the
number of waiting opens. -/
theorem opens_waiting_set {tasks : List Task} {t : Nat} {old new : Task}
    (h : tasks[t]? = some old) (hold : old.isOpenWait = false) (hnew : new.isOpenWait = false) :
    (tasks.set t new).countP Task.isOpenWait = tasks.countP Task.isOpenWait := by
  have hcount := countP_set_add Task.isOpenWait new h
  simpa [hold, hnew] using hcount

/-- A wake-up changes no call's kind. -/
theorem opens_waiting_map {tasks : List Task} {wake : Task → Task}
    (h : ∀ task : Task, (wake task).isOpenWait = task.isOpenWait) :
    (tasks.map wake).countP Task.isOpenWait = tasks.countP Task.isOpenWait := by
  rw [List.countP_map]
  exact List.countP_congr fun task _ => by simp [h task]

/-- A step that replaces a call by one of another kind, neither a waiting open, and leaves the
counters and the buffer alone. -/
theorem handles_set_task {pipe : ScullPipe} {t : Nat} {old new : Task}
    (h : u.tasks[t]? = some old) (hold : old.isOpenWait = false) (hnew : new.isOpenWait = false)
    (hbuf : pipe.buf = u.pipe.buf) (hreaders : pipe.readers = u.pipe.readers)
    (hwriters : pipe.writers = u.pipe.writers) : HandleStep u (u.setTask t pipe new) e := by
  refine .frame rfl hbuf ?_ hwriters
  simp only [settledReaders, opensWaiting, setTask, hreaders, opens_waiting_set h hold hnew]

/-- A call that joins the calls in progress without waiting for a writer. -/
theorem handles_add_task {pipe : ScullPipe} {task : Task} (htask : task.isOpenWait = false)
    (hbuf : pipe.buf = u.pipe.buf) (hreaders : pipe.readers = u.pipe.readers)
    (hwriters : pipe.writers = u.pipe.writers) : HandleStep u (u.addTask pipe task) e := by
  refine .frame rfl hbuf ?_ hwriters
  simp [settledReaders, opensWaiting, addTask, hreaders, htask]

/-- A wake-up at the end of a call. -/
theorem handles_wake {t : Nat} {old : Task} {wake : Task → Task}
    (h : u.tasks[t]? = some old) (hold : old.isOpenWait = false)
    (hwake : ∀ task : Task, (wake task).isOpenWait = task.isOpenWait) :
    HandleStep u { u with tasks := (u.tasks.set t .returned).map wake } e := by
  refine .frame rfl rfl ?_ rfl
  have hset : (u.tasks.set t .returned).countP Task.isOpenWait = u.opensWaiting :=
    opens_waiting_set h hold rfl
  simp only [settledReaders, opensWaiting, opens_waiting_map hwake] at hset ⊢
  rw [hset]

theorem wake_inq_is_open_wait (task : Task) : task.wakeInq.isOpenWait = task.isOpenWait := by
  cases task <;> rfl

theorem wake_outq_is_open_wait (task : Task) : task.wakeOutq.isOpenWait = task.isOpenWait := by
  cases task <;> rfl

theorem wake_openq_is_open_wait (task : Task) : task.wakeOpenq.isOpenWait = task.isOpenWait := by
  cases task <;> rfl

/-- A successful first section of an open, by its outcome. -/
theorem open_handles {mode : AccMode} {nonblock wakeOpenq : Bool} {ch : Choice}
    {pipe : ScullPipe} (h : OpenOutcome u mode nonblock ch pipe (.opened wakeOpenq)) :
    HandleStep u { u with
      pipe := pipe
      files := u.files ++ [⟨mode, nonblock, true⟩]
      tasks := if wakeOpenq then u.tasks.map Task.wakeOpenq else u.tasks } e := by
  have hwaiting : (if wakeOpenq then u.tasks.map Task.wakeOpenq else u.tasks).countP
      Task.isOpenWait = u.opensWaiting := by
    split
    · exact opens_waiting_map wake_openq_is_open_wait
    · rfl
  cases h with
  | ordinary _ hidx hsetup hreaders hwriters =>
      obtain ⟨block, hblock, -⟩ := hsetup.block
      refine .opened ⟨mode, nonblock, true⟩ rfl (fun h => absurd h hidx) rfl (by simp [hblock]) ?_
        hwriters
      simp only [settledReaders, opensWaiting] at hwaiting ⊢
      rw [hwaiting, hreaders]
      omega
  | reader hidx hread hwriters =>
      refine .openedReader ⟨mode, nonblock, true⟩ rfl hidx hread rfl rfl ?_ hwriters rfl
      simp only [settledReaders, opensWaiting] at hwaiting ⊢
      rw [hwaiting]
      omega
  | writer _ hidx hread hsetup hreaders hwriters =>
      obtain ⟨block, hblock, -⟩ := hsetup.block
      have hmode : mode = .wronly := by cases mode <;> simp_all [AccMode.read]
      subst hmode
      refine .opened ⟨.wronly, nonblock, true⟩ rfl (fun _ => rfl) rfl (by simp [hblock]) ?_
        hwriters
      simp only [settledReaders, opensWaiting] at hwaiting ⊢
      rw [hwaiting, hreaders]
      simp [AccMode.read]

/-- Every step treats the files, the counters and the buffer in one of the listed ways. -/
theorem Step.handles (h : Step u a e v) (hwaits : u.OpenWaitsRead) : HandleStep u v e := by
  cases h with
  | openInterrupted | readInterrupted | writeInterrupted | ioctl => exact .frame rfl rfl rfl rfl
  | openFailed mode nonblock ch pipe err hintr hsection =>
      cases open_outcome hsection with
      | ordinaryFailed | wouldBlock => exact .frame rfl rfl rfl rfl
      | writerFailed hidx => exact .leaked _ hidx rfl
  | openWaits mode nonblock ch pipe hintr hsection =>
      cases open_outcome hsection with
      | waits =>
          refine .frame rfl rfl ?_ rfl
          simp only [settledReaders, opensWaiting, List.countP_append, List.countP_singleton,
            Task.isOpenWait, if_true]
          omega
  | opened mode nonblock ch pipe wakeOpenq hintr hsection =>
      exact open_handles (open_outcome hsection)
  | releaseInterrupted file f ch hfile hlive =>
      exact .forgotten file f hfile hlive rfl rfl rfl rfl rfl
  | released file f ch hfile hlive =>
      refine .released file f hfile hlive rfl ?_ ?_ rfl
      · simp [settledReaders, opensWaiting, scullPRelease]
      · simp only [settledReaders, opensWaiting, scullPRelease]
        omega
  | endOfFile => exact handles_add_task rfl rfl rfl rfl
  | read file f count ch pipe task e _ _ _ _ hsection =>
      obtain ⟨-, hbuf, hreaders, hwriters, htask, -⟩ := scull_p_read_handles hsection
      exact handles_add_task htask hbuf hreaders hwriters
  | write file f data ch pipe task e _ _ _ _ hsection =>
      obtain ⟨-, hbuf, hreaders, hwriters, htask, -⟩ := scull_p_write_handles hsection
      exact handles_add_task htask hbuf hreaders hwriters
  | readAgain t ch file count pipe task e hold _ hsection =>
      obtain ⟨-, hbuf, hreaders, hwriters, htask, -⟩ := scull_p_read_handles hsection
      exact handles_set_task hold rfl htask hbuf hreaders hwriters
  | writeAgain t ch file data pipe task e hold _ hsection =>
      obtain ⟨-, hbuf, hreaders, hwriters, htask, -⟩ := scull_p_write_handles hsection
      exact handles_set_task hold rfl htask hbuf hreaders hwriters
  | readWait t ch file count phase next hold | readSignalled t ch file count phase hold =>
      exact handles_set_task hold rfl rfl rfl rfl rfl
  | writeWait t ch file data phase next hold | writeSignalled t ch file data phase hold =>
      exact handles_set_task hold rfl rfl rfl rfl rfl
  | readWake t ch file count hold => exact handles_wake hold rfl wake_outq_is_open_wait
  | writeWake t ch file count hold => exact handles_wake hold rfl wake_inq_is_open_wait
  | openWait t ch mode nonblock phase next hold =>
      have hcount := countP_set_add Task.isOpenWait (.openWait mode nonblock next) hold
      refine .frame rfl rfl ?_ rfl
      simp only [Task.isOpenWait, if_true, Nat.add_right_cancel_iff] at hcount
      simp only [settledReaders, opensWaiting, setTask, hcount]
  | openSignalled t ch mode nonblock phase hold =>
      exact .leaked _ (hwaits _ (List.mem_of_getElem? hold)).1 rfl
  | openedAgain t ch mode nonblock hold _ hwriters =>
      obtain ⟨hidx, hread⟩ := hwaits _ (List.mem_of_getElem? hold)
      have hcount := countP_set_add Task.isOpenWait .returned hold
      refine .openedReader ⟨mode, nonblock, true⟩ rfl hidx hread rfl rfl ?_ hwriters rfl
      simp only [Task.isOpenWait, if_true] at hcount
      simp only [settledReaders, opensWaiting, setTask]
      simp only [Bool.false_eq_true, if_false] at hcount
      omega

/-- What holds of every task and of a new one holds of every task after the replacement. -/
theorem forall_mem_set {P : Task → Prop} {tasks : List Task} {t : Nat} {new : Task}
    (h : ∀ task ∈ tasks, P task) (hnew : P new) : ∀ task ∈ tasks.set t new, P task := by
  intro task hmem
  rcases List.mem_or_eq_of_mem_set hmem with hmem | rfl
  · exact h task hmem
  · exact hnew

/-- What holds of every task, and after a wake-up of it, holds after the wake-up of all. -/
theorem forall_mem_map {P : Task → Prop} {tasks : List Task} {wake : Task → Task}
    (h : ∀ task ∈ tasks, P task) (hwake : ∀ task, P task → P (wake task)) :
    ∀ task ∈ tasks.map wake, P task := by
  intro task hmem
  obtain ⟨old, hold, rfl⟩ := List.mem_map.mp hmem
  exact hwake old (h old hold)

/-- What holds of every task and of one more holds of all. -/
theorem forall_mem_add {P : Task → Prop} {tasks : List Task} {new : Task}
    (h : ∀ task ∈ tasks, P task) (hnew : P new) : ∀ task ∈ tasks ++ [new], P task := by
  intro task hmem
  rcases List.mem_append.mp hmem with hmem | hmem
  · exact h task hmem
  · rw [List.mem_singleton.mp hmem]
    exact hnew

theorem open_wait_reads_of_not {idx : Nat} {task : Task} (h : task.isOpenWait = false) :
    task.OpenWaitReads idx := by
  cases task with
  | openWait => cases h
  | _ => trivial

/-- The index of the pipe never changes, and only read opens of the proper FIFO come to wait. -/
theorem Step.open_waits_read (h : Step u a e v) (hwaits : u.OpenWaitsRead) :
    v.pipe.idx = u.pipe.idx ∧ v.OpenWaitsRead := by
  have hkept : ∀ {idx : Nat}, idx = u.pipe.idx → ∀ old ∈ u.tasks, old.OpenWaitReads idx := by
    intro idx hidx
    rw [hidx]
    exact hwaits
  cases h with
  | openInterrupted | readInterrupted | writeInterrupted | ioctl => exact ⟨rfl, hwaits⟩
  | releaseInterrupted | released => exact ⟨rfl, hwaits⟩
  | openFailed mode nonblock ch pipe err hintr hsection =>
      cases open_outcome hsection with
      | ordinaryFailed | wouldBlock | writerFailed => exact ⟨rfl, hwaits⟩
  | openWaits mode nonblock ch pipe hintr hsection =>
      cases open_outcome hsection with
      | waits hidx hread => exact ⟨rfl, forall_mem_add hwaits ⟨hidx, hread⟩⟩
  | opened mode nonblock ch pipe wakeOpenq hintr hsection =>
      have hidx : pipe.idx = u.pipe.idx := by
        cases open_outcome hsection with
        | ordinary _ _ hsetup | writer _ _ _ hsetup => exact hsetup.idx
        | reader => rfl
      refine ⟨hidx, ?_⟩
      show ∀ task ∈ (if wakeOpenq then u.tasks.map Task.wakeOpenq else u.tasks),
        task.OpenWaitReads pipe.idx
      rw [hidx]
      split
      · exact forall_mem_map hwaits (fun task h => by cases task <;> exact h)
      · exact hwaits
  | endOfFile => exact ⟨rfl, forall_mem_add hwaits trivial⟩
  | read file f count ch pipe task e _ _ _ _ hsection =>
      obtain ⟨hidx, -, -, -, htask, -⟩ := scull_p_read_handles hsection
      exact ⟨hidx, forall_mem_add (hkept hidx) (open_wait_reads_of_not htask)⟩
  | write file f data ch pipe task e _ _ _ _ hsection =>
      obtain ⟨hidx, -, -, -, htask, -⟩ := scull_p_write_handles hsection
      exact ⟨hidx, forall_mem_add (hkept hidx) (open_wait_reads_of_not htask)⟩
  | readAgain t ch file count pipe task e hold _ hsection =>
      obtain ⟨hidx, -, -, -, htask, -⟩ := scull_p_read_handles hsection
      exact ⟨hidx, forall_mem_set (hkept hidx) (open_wait_reads_of_not htask)⟩
  | writeAgain t ch file data pipe task e hold _ hsection =>
      obtain ⟨hidx, -, -, -, htask, -⟩ := scull_p_write_handles hsection
      exact ⟨hidx, forall_mem_set (hkept hidx) (open_wait_reads_of_not htask)⟩
  | readWait | readSignalled | writeWait | writeSignalled | openSignalled | openedAgain =>
      exact ⟨rfl, forall_mem_set hwaits trivial⟩
  | readWake | writeWake =>
      refine ⟨rfl, forall_mem_map (forall_mem_set hwaits trivial) ?_⟩
      intro task h
      cases task <;> exact h
  | openWait t ch mode nonblock phase next hold =>
      have hread : (Task.openWait mode nonblock phase).OpenWaitReads u.pipe.idx :=
        hwaits _ (List.mem_of_getElem? hold)
      exact ⟨rfl, forall_mem_set hwaits hread⟩

/-- Every call in progress uses a file that is still open. -/
def TasksLive (s : PipeState) : Prop :=
  ∀ task ∈ s.tasks, ∀ file, task.file = some file →
    ∃ f, s.files[file]? = some f ∧ f.live = true

/-- A call that keeps using the file it used, or none. -/
theorem file_of_mem_pair {task : Task} {file i : Nat} (h : task.file ∈ [none, some file])
    (hi : task.file = some i) : i = file := by
  rw [hi] at h
  simpa using h

/-- A new file leaves the old ones where they were. -/
theorem tasks_live_append {files : List File} {tasks : List Task} (f : File)
    (h : ∀ task ∈ tasks, ∀ file, task.file = some file →
      ∃ g, files[file]? = some g ∧ g.live = true) :
    ∀ task ∈ tasks, ∀ file, task.file = some file →
      ∃ g, (files ++ [f])[file]? = some g ∧ g.live = true := by
  intro task hmem file hfile
  obtain ⟨g, hg, hlive⟩ := h task hmem file hfile
  exact ⟨g, by rw [List.getElem?_append_left (List.getElem?_eq_some_iff.mp hg).1, hg], hlive⟩

/-- A file that no call uses may go. -/
theorem tasks_live_close {files : List File} {tasks : List Task} {file : Nat} (f : File)
    (h : ∀ task ∈ tasks, ∀ file, task.file = some file →
      ∃ g, files[file]? = some g ∧ g.live = true)
    (hidle : ∀ task ∈ tasks, task.file ≠ some file) :
    ∀ task ∈ tasks, ∀ i, task.file = some i →
      ∃ g, (files.set file f)[i]? = some g ∧ g.live = true := by
  intro task hmem i hi
  have hne : file ≠ i := by
    rintro rfl
    exact hidle task hmem hi
  rw [List.getElem?_set_ne hne]
  exact h task hmem i hi

/-- No step closes a file under a call that uses it. -/
theorem Step.tasks_live (h : Step u a e v) (hlive : u.TasksLive) : v.TasksLive := by
  have hold : ∀ {t : Nat} {task : Task}, u.tasks[t]? = some task → ∀ file, task.file = some file →
      ∃ f, u.files[file]? = some f ∧ f.live = true :=
    fun htask => hlive _ (List.mem_of_getElem? htask)
  cases h with
  | openInterrupted | readInterrupted | writeInterrupted | ioctl | openFailed => exact hlive
  | openWaits => exact forall_mem_add hlive (by simp [Task.file])
  | opened mode nonblock ch pipe wakeOpenq =>
      refine tasks_live_append _ ?_
      split
      · exact forall_mem_map hlive (fun task h => by cases task <;> exact h)
      · exact hlive
  | releaseInterrupted file f ch _ _ _ hidle | released file f ch _ _ _ hidle =>
      exact tasks_live_close _ hlive hidle
  | endOfFile => exact forall_mem_add hlive (by simp [Task.file])
  | read file f count ch pipe task e hfile hopen _ _ hsection =>
      obtain ⟨-, -, -, -, -, htask⟩ := scull_p_read_handles hsection
      refine forall_mem_add hlive fun i hi => ?_
      rw [file_of_mem_pair htask hi]
      exact ⟨f, hfile, hopen⟩
  | write file f data ch pipe task e hfile hopen _ _ hsection =>
      obtain ⟨-, -, -, -, -, htask⟩ := scull_p_write_handles hsection
      refine forall_mem_add hlive fun i hi => ?_
      rw [file_of_mem_pair htask hi]
      exact ⟨f, hfile, hopen⟩
  | readAgain t ch file count pipe task e htask _ hsection =>
      obtain ⟨-, -, -, -, -, hnew⟩ := scull_p_read_handles hsection
      refine forall_mem_set hlive fun i hi => ?_
      rw [file_of_mem_pair hnew hi]
      exact hold htask file rfl
  | writeAgain t ch file data pipe task e htask _ hsection =>
      obtain ⟨-, -, -, -, -, hnew⟩ := scull_p_write_handles hsection
      refine forall_mem_set hlive fun i hi => ?_
      rw [file_of_mem_pair hnew hi]
      exact hold htask file rfl
  | readWait t ch file count phase next htask =>
      exact forall_mem_set hlive fun i hi => hold htask i hi
  | writeWait t ch file data phase next htask =>
      exact forall_mem_set hlive fun i hi => hold htask i hi
  | openWait | readSignalled | writeSignalled | openSignalled =>
      exact forall_mem_set hlive (by simp [Task.file])
  | readWake | writeWake =>
      refine forall_mem_map (forall_mem_set hlive (by simp [Task.file])) ?_
      intro task h
      cases task <;> exact h
  | openedAgain =>
      exact tasks_live_append _ (forall_mem_set hlive (by simp [Task.file]))

/-- The open files, counted by access, after one more was opened. -/
theorem files_open_append {f : File} (hf : f.live = true) (hv : v.files = u.files ++ [f]) :
    (v.readersOpen : Int) = u.readersOpen + (if f.mode.read then 1 else 0) ∧
      (v.writersOpen : Int) = u.writersOpen + (if f.mode.write then 1 else 0) ∧
      v.filesOpen = u.filesOpen + 1 := by
  simp only [readersOpen, writersOpen, filesOpen, hv, File.reads, File.writes, hf,
    List.countP_append, List.countP_singleton, Bool.true_and]
  exact ⟨by split <;> rfl, by split <;> rfl, rfl⟩

/-- The open files, counted by access, after one of them is gone. -/
theorem files_open_close {file : Nat} {f : File} (hfile : u.files[file]? = some f)
    (hf : f.live = true) (hv : v.files = u.files.set file { f with live := false }) :
    (v.readersOpen : Int) = u.readersOpen - (if f.mode.read then 1 else 0) ∧
      (v.writersOpen : Int) = u.writersOpen - (if f.mode.write then 1 else 0) ∧
      u.filesOpen = v.filesOpen + 1 := by
  have hreads := countP_set_add File.reads { f with live := false } hfile
  have hwrites := countP_set_add File.writes { f with live := false } hfile
  have hfiles := countP_set_add File.live { f with live := false } hfile
  simp only [File.reads, File.writes, hf, Bool.true_and, Bool.false_and, Bool.false_eq_true,
    if_true, if_false, Nat.add_zero] at hreads hwrites hfiles
  simp only [readersOpen, writersOpen, filesOpen, hv]
  refine ⟨?_, ?_, hfiles.symm⟩
  · rw [← hreads]
    split <;> omega
  · rw [← hwrites]
    split <;> omega

/-- The counters are at least the open files they count, and the buffer lives as long as a file
is open. -/
structure Covered (s : PipeState) : Prop where
  readers : (s.readersOpen : Int) ≤ s.settledReaders
  writers : (s.writersOpen : Int) ≤ s.pipe.writers
  buf : 0 < s.filesOpen → s.pipe.buf.isSome = true

/-- The counters are the numbers of open files they count, and the buffer lives as long as a
file is open. -/
structure Exact (s : PipeState) : Prop where
  readers : s.settledReaders = s.readersOpen
  writers : s.pipe.writers = s.writersOpen
  buf : 0 < s.filesOpen → s.pipe.buf.isSome = true

/-- While a file stays open, a release keeps the buffer: the counters cannot both be zero. -/
theorem buf_of_released
    (hbuf : v.pipe.buf = if v.settledReaders + v.opensWaiting + v.pipe.writers = 0 then none
      else u.pipe.buf)
    (hold : u.pipe.buf.isSome = true) (hreaders : (v.readersOpen : Int) ≤ v.settledReaders)
    (hwriters : (v.writersOpen : Int) ≤ v.pipe.writers) (hopen : 0 < v.filesOpen) :
    v.pipe.buf.isSome = true := by
  have hle := v.files_open_le
  rw [hbuf, if_neg (by omega)]
  exact hold

/-- On an ordinary pipe every step keeps the counters above the open files. -/
theorem HandleStep.covered (h : HandleStep u v e) (hidx : u.pipe.idx ≠ properFifoBehIdx)
    (hu : Covered u) : Covered v := by
  obtain ⟨hreaders, hwriters, hbuf⟩ := hu
  cases h with
  | frame hfiles hbuf' hreaders' hwriters' =>
      refine ⟨?_, ?_, ?_⟩
      · simpa only [readersOpen, hfiles, hreaders'] using hreaders
      · simpa only [writersOpen, hfiles, hwriters'] using hwriters
      · simpa only [filesOpen, hfiles, hbuf'] using hbuf
  | leaked _ h => exact absurd h hidx
  | opened f hf _ hfiles hsome hreaders' hwriters' =>
      obtain ⟨hr, hw, -⟩ := files_open_append hf hfiles
      refine ⟨?_, ?_, fun _ => hsome⟩
      · rw [hreaders', hr]
        omega
      · rw [hwriters', hw]
        omega
  | openedReader f _ h => exact absurd h hidx
  | forgotten file f hfile hf _ hfiles hbuf' hreaders' hwriters' =>
      obtain ⟨hr, hw, hn⟩ := files_open_close hfile hf hfiles
      refine ⟨?_, ?_, fun _ => ?_⟩
      · rw [hreaders']
        omega
      · rw [hwriters']
        omega
      · rw [hbuf']
        exact hbuf (by omega)
  | released file f hfile hf hfiles hbuf' hreaders' hwriters' =>
      obtain ⟨hr, hw, hn⟩ := files_open_close hfile hf hfiles
      have hreaders : (v.readersOpen : Int) ≤ v.settledReaders := by
        rw [hreaders', hr]
        omega
      have hwriters : (v.writersOpen : Int) ≤ v.pipe.writers := by
        rw [hwriters', hw]
        omega
      exact ⟨hreaders, hwriters,
        buf_of_released hbuf' (hbuf (by omega)) hreaders hwriters⟩

/-- A step keeps the counters exact if no release fails, no open of the proper FIFO fails and no
file with `O_RDWR` appears on the proper FIFO. -/
theorem HandleStep.exact (h : HandleStep u v e) (hu : Exact u)
    (hrelease : ∀ err, e.ret ≠ some (.releaseFailed err))
    (hopen : u.pipe.idx = properFifoBehIdx → ∀ err, e.ret ≠ some (.openFailed err))
    (hrdwr : u.pipe.idx = properFifoBehIdx →
      ∀ f : File, v.files = u.files ++ [f] → f.mode ≠ .rdwr) : Exact v := by
  obtain ⟨hreaders, hwriters, hbuf⟩ := hu
  cases h with
  | frame hfiles hbuf' hreaders' hwriters' =>
      refine ⟨?_, ?_, ?_⟩
      · simpa only [readersOpen, hfiles, hreaders'] using hreaders
      · simpa only [writersOpen, hfiles, hwriters'] using hwriters
      · simpa only [filesOpen, hfiles, hbuf'] using hbuf
  | leaked err hidx hret => exact absurd hret (hopen hidx err)
  | opened f hf _ hfiles hsome hreaders' hwriters' =>
      obtain ⟨hr, hw, -⟩ := files_open_append hf hfiles
      refine ⟨?_, ?_, fun _ => hsome⟩
      · rw [hreaders', hr, hreaders]
      · rw [hwriters', hw, hwriters]
  | openedReader f hf hidx hread hfiles hbuf' hreaders' hwriters hwriters' =>
      obtain ⟨hr, hw, -⟩ := files_open_append hf hfiles
      have hmode : f.mode.write = false := by
        have hne := hrdwr hidx f hfiles
        cases hm : f.mode with
        | rdonly => rfl
        | wronly => simp [hm, AccMode.read] at hread
        | rdwr => exact absurd hm hne
      rw [hread, if_pos rfl] at hr
      simp only [hmode, Bool.false_eq_true, if_false] at hw
      refine ⟨by omega, by omega, fun _ => ?_⟩
      -- a reader finds a writer, and the writer's file keeps the buffer
      have hle := u.writers_open_le
      rw [hbuf']
      exact hbuf (by omega)
  | forgotten file f _ _ hret => exact absurd hret (hrelease _)
  | released file f hfile hf hfiles hbuf' hreaders' hwriters' =>
      obtain ⟨hr, hw, hn⟩ := files_open_close hfile hf hfiles
      have hreaders : v.settledReaders = v.readersOpen := by rw [hreaders', hreaders, hr]
      have hwriters : v.pipe.writers = v.writersOpen := by rw [hwriters', hwriters, hw]
      exact ⟨hreaders, hwriters,
        buf_of_released hbuf' (hbuf (by omega)) (Int.le_of_eq hreaders.symm)
          (Int.le_of_eq hwriters.symm)⟩

/-- The last release frees the buffer, and nothing but an open makes one. -/
theorem HandleStep.freed (h : HandleStep u v e) (hidx : u.pipe.idx ≠ properFifoBehIdx)
    (hv : Exact v) (hwaiting : v.opensWaiting = 0)
    (hrelease : ∀ err, e.ret ≠ some (.releaseFailed err))
    (hfree : u.filesOpen = 0 → u.pipe.buf = none) : v.filesOpen = 0 → v.pipe.buf = none := by
  intro hnone
  cases h with
  | frame hfiles hbuf' =>
      rw [hbuf']
      exact hfree (by simpa only [filesOpen, hfiles] using hnone)
  | leaked _ h => exact absurd h hidx
  | opened f hf _ hfiles =>
      have hcount := (files_open_append hf hfiles).2.2
      omega
  | openedReader f _ h => exact absurd h hidx
  | forgotten file f _ _ hret => exact absurd hret (hrelease _)
  | released file f _ _ _ hbuf' =>
      have hr := v.readers_open_le
      have hw := v.writers_open_le
      have hreaders := hv.readers
      have hwriters := hv.writers
      rw [hbuf', if_pos (by omega)]

/-- No open waits on an ordinary pipe. -/
theorem opens_waiting_eq_zero (h : u.OpenWaitsRead) (hidx : u.pipe.idx ≠ properFifoBehIdx) :
    u.opensWaiting = 0 := by
  refine List.countP_eq_zero.mpr ?_
  intro task hmem
  have htask := h task hmem
  cases task with
  | openWait => exact absurd htask.1 hidx
  | _ => simp [Task.isOpenWait]

/-- What holds of an ordinary pipe in every run. -/
structure Ordinary (s : PipeState) : Prop where
  idx : s.pipe.idx ≠ properFifoBehIdx
  waits : s.OpenWaitsRead
  live : s.TasksLive
  covered : Covered s

/-- An ordinary pipe stays one. -/
theorem Ordinary.step (h : Ordinary u) (hstep : u.step a = some (v, e)) : Ordinary v := by
  have hs := step_sound hstep
  obtain ⟨hidx, hwaits⟩ := hs.open_waits_read h.waits
  exact ⟨hidx ▸ h.idx, hwaits, hs.tasks_live h.live, (hs.handles h.waits).covered h.idx h.covered⟩

/-- No calls and no files are in place at module load. -/
theorem ordinary_init {idx : Nat} (hidx : idx ≠ properFifoBehIdx) (tun : Tunables) :
    Ordinary (init idx tun) := by
  refine ⟨hidx, ?_, ?_, ⟨?_, ?_, ?_⟩⟩ <;>
    simp [OpenWaitsRead, TasksLive, init, readersOpen, writersOpen, filesOpen, settledReaders,
      opensWaiting, ScullPipe.init]

/-- Handle accounting of the ordinary pipes. Over every run from module load, whatever fails or is
interrupted in it, the counters are at least the open files they count, they are not negative,
and an open file has a buffer. If no release of the run was interrupted, the counters are exact
and the buffer is gone precisely when no file is open. -/
theorem ordinary_pipe_accounting {idx : Nat} (hidx : idx ≠ properFifoBehIdx) (tun : Tunables)
    (actions : List PipeAction) {t : PipeState}
    (h : Machine.Visits step (init idx tun) actions t) :
    ((t.readersOpen : Int) ≤ t.pipe.readers ∧ (t.writersOpen : Int) ≤ t.pipe.writers ∧
        0 ≤ t.pipe.readers ∧ 0 ≤ t.pipe.writers ∧
        (0 < t.filesOpen → t.pipe.buf.isSome = true)) ∧
      ((∀ u a e v, Machine.Takes step (init idx tun) actions u a e v →
          ∀ err, e.ret ≠ some (.releaseFailed err)) →
        t.pipe.readers = t.readersOpen ∧ t.pipe.writers = t.writersOpen ∧
          (t.pipe.buf = none ↔ t.filesOpen = 0)) := by
  have hordinary : Ordinary t :=
    h.invariant (fun _ _ _ _ hu hstep => hu.step hstep) (ordinary_init hidx tun)
  have hsettled : t.settledReaders = t.pipe.readers := by
    simp [settledReaders, opens_waiting_eq_zero hordinary.waits hordinary.idx]
  obtain ⟨hreaders, hwriters, hbuf⟩ := hordinary.covered
  rw [hsettled] at hreaders
  refine ⟨⟨hreaders, hwriters, by omega, by omega, hbuf⟩, fun hrelease => ?_⟩
  -- without an interrupted release, exactness is one more invariant
  have hexact : Ordinary t ∧ Exact t ∧ (t.filesOpen = 0 → t.pipe.buf = none) := by
    refine h.invariant_of_guard
      (I := fun u => Ordinary u ∧ Exact u ∧ (u.filesOpen = 0 → u.pipe.buf = none))
      ?_ ⟨ordinary_init hidx tun, ?_, fun _ => rfl⟩ hrelease
    · rintro u a e v ⟨hu, hexact, hfree⟩ hnone hstep
      have hv := hu.step hstep
      have hhandles := (step_sound hstep).handles hu.waits
      have hexact' := hhandles.exact hexact hnone (fun h => absurd h hu.idx)
        (fun h => absurd h hu.idx)
      exact ⟨hv, hexact', hhandles.freed hu.idx hexact' (opens_waiting_eq_zero hv.waits hv.idx)
        hnone hfree⟩
    · refine ⟨?_, ?_, ?_⟩ <;>
        simp [init, readersOpen, writersOpen, filesOpen, settledReaders, opensWaiting,
          ScullPipe.init]
  obtain ⟨-, hexact, hfree⟩ := hexact
  refine ⟨hsettled ▸ hexact.readers, hexact.writers, fun hnone => ?_, hfree⟩
  by_contra hopen
  have hsome := hexact.buf (Nat.pos_of_ne_zero hopen)
  simp [hnone] at hsome

/-- One client opens for both, another's allocation-free open for writing is interrupted, and the
release of the first is interrupted. -/
def openAndForget : List PipeAction :=
  [.openFile .rdwr false {}, .openFile .wronly false { intr := true }, .release 0 { intr := true }]

/-- The interrupted release leaves both counters at one with no file open. -/
theorem ordinary_pipe_accounting_forgotten :
    ∃ t, Machine.Visits step (init 0 ⟨4000, 1000, 4⟩) openAndForget t ∧
      t.pipe.readers = 1 ∧ t.filesOpen = 0 ∧
      (t.readersOpen : Int) ≤ t.pipe.readers :=
  have hvisits := Machine.Visits.later rfl (.later rfl (.later rfl (.here _ [])))
  ⟨_, hvisits, rfl, rfl,
    (ordinary_pipe_accounting (by decide) ⟨4000, 1000, 4⟩ openAndForget hvisits).1.1⟩

/-- The step completes an open of the proper FIFO with `O_RDWR`: it starts or resumes while there
is a writer. -/
def opensRdwr (s : PipeState) : PipeAction → Bool
  | .openFile .rdwr _ ch => !ch.intr && s.pipe.writers != 0
  | .task t ch =>
      match s.tasks[t]? with
      | some (.openWait .rdwr _ .relock) => !ch.intr && s.pipe.writers != 0
      | _ => false
  | _ => false

/-- On the proper FIFO a file with `O_RDWR` appears in the steps that `opensRdwr` names. -/
theorem Step.opens_rdwr_iff (h : Step u a e v) (hidx : u.pipe.idx = properFifoBehIdx) :
    u.opensRdwr a = true ↔ ∃ f : File, v.files = u.files ++ [f] ∧ f.mode = .rdwr := by
  have hquiet : v.files.length = u.files.length → u.opensRdwr a = false →
      (u.opensRdwr a = true ↔ ∃ f : File, v.files = u.files ++ [f] ∧ f.mode = .rdwr) := by
    intro hlength hfalse
    simp only [hfalse, Bool.false_eq_true, false_iff]
    rintro ⟨f, hf, -⟩
    simp [hf] at hlength
  have hnew : ∀ f : File, v.files = u.files ++ [f] →
      ((∃ g : File, v.files = u.files ++ [g] ∧ g.mode = .rdwr) ↔ f.mode = .rdwr) := by
    intro f hf
    constructor
    · rintro ⟨g, hg, hmode⟩
      obtain rfl : f = g := by simpa using hf.symm.trans hg
      exact hmode
    · exact fun hmode => ⟨f, hf, hmode⟩
  cases h with
  | openInterrupted mode nonblock ch hintr =>
      exact hquiet rfl (by cases mode <;> simp [opensRdwr, hintr])
  | openFailed mode nonblock ch pipe err hintr hsection =>
      cases open_outcome hsection with
      | ordinaryFailed hne => exact absurd hidx hne
      | wouldBlock _ _ _ hwriters =>
          exact hquiet rfl (by cases mode <;> simp [opensRdwr, hwriters])
      | writerFailed _ hread =>
          exact hquiet rfl (by cases mode <;> simp_all [opensRdwr, AccMode.read])
  | openWaits mode nonblock ch pipe hintr hsection =>
      cases open_outcome hsection with
      | waits _ _ hwriters => exact hquiet rfl (by cases mode <;> simp [opensRdwr, hwriters])
  | opened mode nonblock ch pipe wakeOpenq hintr hsection =>
      rw [hnew _ rfl]
      cases open_outcome hsection with
      | ordinary _ hne => exact absurd hidx hne
      | reader _ _ hwriters => cases mode <;> simp [opensRdwr, hintr, hwriters]
      | writer _ _ hread => cases mode <;> simp_all [opensRdwr, AccMode.read]
  | releaseInterrupted | released => exact hquiet (List.length_set ..) rfl
  | readInterrupted | endOfFile | read | writeInterrupted | write | ioctl => exact hquiet rfl rfl
  | readWait t ch file count phase next htask | readSignalled t ch file count phase htask =>
      exact hquiet rfl (by simp [opensRdwr, htask])
  | readAgain t ch file count pipe task e htask | readWake t ch file count htask =>
      exact hquiet rfl (by simp [opensRdwr, htask])
  | writeWait t ch file data phase next htask | writeSignalled t ch file data phase htask =>
      exact hquiet rfl (by simp [opensRdwr, htask])
  | writeAgain t ch file data pipe task e htask | writeWake t ch file count htask =>
      exact hquiet rfl (by simp [opensRdwr, htask])
  | openWait t ch mode nonblock phase next htask hwriters =>
      refine hquiet rfl ?_
      cases mode <;> cases phase <;> simp_all [opensRdwr]
  | openSignalled t ch mode nonblock phase htask hintr =>
      refine hquiet rfl ?_
      cases mode <;> cases phase <;> simp_all [opensRdwr]
  | openedAgain t ch mode nonblock htask hintr hwriters =>
      rw [hnew _ rfl]
      cases mode <;> simp [opensRdwr, htask, hintr, hwriters]

/-- The proper FIFO does not count a new file with `O_RDWR` as a writer. -/
theorem HandleStep.rdwr_uncounted (h : HandleStep u v e) (hidx : u.pipe.idx = properFifoBehIdx)
    (hret : ∀ err, e.ret ≠ some (.openFailed err)) {f : File} (hf : v.files = u.files ++ [f])
    (hmode : f.mode = .rdwr) :
    v.pipe.writers = u.pipe.writers ∧ (v.writersOpen : Int) = u.writersOpen + 1 := by
  have hlength : v.files.length ≠ u.files.length := by simp [hf]
  cases h with
  | frame hfiles => exact absurd (by rw [hfiles]) hlength
  | leaked err _ hfailed => exact absurd hfailed (hret err)
  | opened g _ hwronly hg =>
      obtain rfl : g = f := by simpa using hg.symm.trans hf
      simp [hwronly hidx] at hmode
  | openedReader g hlive _ _ hg _ _ _ hwriters =>
      obtain rfl : g = f := by simpa using hg.symm.trans hf
      have hcount := (files_open_append hlive hg).2.1
      simp only [hmode, AccMode.write, if_true] at hcount
      exact ⟨hwriters, hcount⟩
  | forgotten file g _ _ _ hfiles => exact absurd (by rw [hfiles, List.length_set]) hlength
  | released file g _ _ hfiles => exact absurd (by rw [hfiles, List.length_set]) hlength

/-- What the counters of the proper FIFO should be: the open files they count and, for the
readers, the opens that still wait. The buffer should live as long as a file is open. -/
def Accounted (s : PipeState) : Prop :=
  s.pipe.readers = s.readersOpen + s.opensWaiting ∧ s.pipe.writers = s.writersOpen ∧
    0 ≤ s.pipe.readers ∧ 0 ≤ s.pipe.writers ∧ (0 < s.filesOpen → s.pipe.buf.isSome = true)

/-- Accounting in the words of `Exact`. -/
theorem accounted_iff_exact (s : PipeState) : Accounted s ↔ Exact s := by
  constructor
  · rintro ⟨hreaders, hwriters, -, -, hbuf⟩
    exact ⟨by rw [settledReaders]; omega, hwriters, hbuf⟩
  · rintro ⟨hreaders, hwriters, hbuf⟩
    rw [settledReaders] at hreaders
    exact ⟨by omega, hwriters, by omega, by omega, hbuf⟩

/-- Handle accounting of the proper FIFO. In a run from module load in which no open and no release
fails, the counters agree with the open files and the waiting opens, and the buffer lives as
long as a file is open, exactly when the run completes no open with `O_RDWR`. -/
theorem proper_fifo_accounting_iff (tun : Tunables) (actions : List PipeAction)
    (hok : ∀ t a e t', Machine.Takes step (init properFifoBehIdx tun) actions t a e t' →
      ∀ err, e.ret ≠ some (.openFailed err) ∧ e.ret ≠ some (.releaseFailed err)) :
    (∀ t, Machine.Visits step (init properFifoBehIdx tun) actions t → Accounted t) ↔
      ∀ t a e t', Machine.Takes step (init properFifoBehIdx tun) actions t a e t' →
        t.opensRdwr a = false := by
  refine Machine.visits_iff_guarded
    (I := fun t => t.pipe.idx = properFifoBehIdx ∧ t.OpenWaitsRead ∧ Exact t)
    (S := fun _ _ e _ => ∀ err, e.ret ≠ some (.openFailed err) ∧ e.ret ≠ some (.releaseFailed err))
    ?_ (fun t ht => (accounted_iff_exact t).mpr ht.2.2) ?_ ?_ hok
  · rintro t a e t' ⟨hidx, hwaits, hexact⟩ hret hguard hstep
    have hs := step_sound hstep
    obtain ⟨hidx', hwaits'⟩ := hs.open_waits_read hwaits
    refine ⟨hidx'.trans hidx, hwaits', (hs.handles hwaits).exact hexact (fun err => (hret err).2)
      (fun _ err => (hret err).1) ?_⟩
    intro _ f hf hmode
    have htrue := (hs.opens_rdwr_iff hidx).mpr ⟨f, hf, hmode⟩
    simp [hguard] at htrue
  · rintro t a e t' ⟨hidx, hwaits, hexact⟩ hret hstep haccounted
    have hs := step_sound hstep
    by_contra hopens
    obtain ⟨f, hf, hmode⟩ := (hs.opens_rdwr_iff hidx).mp (by simpa using hopens)
    obtain ⟨hsame, hmore⟩ := (hs.handles hwaits).rdwr_uncounted hidx (fun err => (hret err).1) hf
      hmode
    -- the new file writes, and the counter of writers has not moved
    have hbefore := hexact.writers
    have hafter := haccounted.2.1
    omega
  · refine ⟨rfl, by simp [OpenWaitsRead, init], ⟨?_, ?_, ?_⟩⟩ <;>
      simp [init, readersOpen, writersOpen, filesOpen, settledReaders, opensWaiting,
        ScullPipe.init]

/-- A writer and a reader open the proper FIFO, write-only and read-only, and both leave. -/
def openAndClose : List PipeAction :=
  [.openFile .wronly false {}, .openFile .rdonly false {}, .release 0 {}, .release 1 {}]

/-- A run of one-way files that completes, and in which nothing fails, is accounted for. -/
theorem proper_fifo_accounting_one_way :
    (Machine.run step (init properFifoBehIdx ⟨4000, 1000, 4⟩) openAndClose).isSome = true ∧
      ∀ t, Machine.Visits step (init properFifoBehIdx ⟨4000, 1000, 4⟩) openAndClose t →
        Accounted t := by
  refine ⟨rfl, (proper_fifo_accounting_iff ⟨4000, 1000, 4⟩ openAndClose ?_).mpr ?_⟩
  · refine Machine.forall_takes_cons rfl (by simp) (Machine.forall_takes_cons rfl (by simp) ?_)
    exact Machine.forall_takes_cons rfl (by simp)
      (Machine.forall_takes_cons rfl (by simp) Machine.forall_takes_nil)
  · refine Machine.forall_takes_cons rfl rfl (Machine.forall_takes_cons rfl rfl ?_)
    exact Machine.forall_takes_cons rfl rfl
      (Machine.forall_takes_cons rfl rfl Machine.forall_takes_nil)

/-- A writer opens the proper FIFO, another client opens it for both and leaves again. -/
def openBothAndClose : List PipeAction :=
  [.openFile .wronly false {}, .openFile .rdwr false {}, .release 1 {}]

/-- The release of the second file takes the first file's count, and with it the buffer, so that
the writer is left without one. -/
theorem proper_fifo_accounting_broken :
    ¬ ∀ (tun : Tunables) (actions : List PipeAction),
      (∀ t a e t', Machine.Takes step (init properFifoBehIdx tun) actions t a e t' →
        ∀ err, e.ret ≠ some (.openFailed err) ∧ e.ret ≠ some (.releaseFailed err)) →
      ∀ t, Machine.Visits step (init properFifoBehIdx tun) actions t → Accounted t := by
  intro h
  have hlast := h ⟨4000, 1000, 4⟩ openBothAndClose
    (Machine.forall_takes_cons rfl (by simp) (Machine.forall_takes_cons rfl (by simp)
      (Machine.forall_takes_cons rfl (by simp) Machine.forall_takes_nil)))
    _ (.later rfl (.later rfl (.later rfl (.here _ []))))
  exact absurd (hlast.2.2.2.2 (by decide)) (by decide)

end PipeState

end Ldd3.Scull
