import Ldd3.Machine
import Ldd3.Scull.Pipe

/-!
# Clients of one pipe

The concurrent system around one scull pipe: any number of files, any number of calls in
progress and the module's tunables. A locked section, a wait-queue step and a wake-up are one
step each. `step` is partial: a sleeping task has no step, and the file layer only calls a
method on a live file with the access it needs, and a release when no call uses the file.
-/

namespace Ldd3.Scull

/-- The pipe, its files, the calls in progress and the tunables. -/
structure PipeState where
  pipe : ScullPipe
  files : List File
  tasks : List Task
  tun : Tunables

/-- The start of a call, or one step of a call in progress. -/
inductive PipeAction where
  | openFile (mode : AccMode) (nonblock : Bool) (ch : Choice)
  | release (file : Nat) (ch : Choice)
  | read (file count : Nat) (ch : Choice)
  | write (file : Nat) (data : List UInt8) (ch : Choice)
  | ioctl (cmd : BitVec 32) (arg : BitVec 64) (env : IoctlEnv)
  | task (t : Nat) (ch : Choice)

/-- The file a call in progress uses. -/
def Task.file : Task → Option Nat
  | readWait file _ _ | readWake file _ | writeWait file _ _ | writeWake file _ => some file
  | openWait _ _ _ | returned => none

/-- A wake-up of `inq` reaches the waiting readers. -/
def Task.wakeInq : Task → Task
  | readWait file count phase => readWait file count phase.wake
  | task => task

/-- A wake-up of `outq` reaches the waiting writers. -/
def Task.wakeOutq : Task → Task
  | writeWait file data phase => writeWait file data phase.wake
  | task => task

/-- A wake-up of `openq` reaches the waiting opens. -/
def Task.wakeOpenq : Task → Task
  | openWait mode nonblock phase => openWait mode nonblock phase.wake
  | task => task

namespace PipeState

/-- The module just loaded, before the first open of the pipe. -/
def init (idx : Nat) (tun : Tunables) : PipeState :=
  ⟨.init idx, [], [], tun⟩

/-- The live file `file`, if there is one. -/
def liveFile (s : PipeState) (file : Nat) : Option File :=
  match s.files[file]? with
  | some f => if f.live then some f else none
  | none => none

/-- Task `t` becomes `task`, with a new pipe. -/
def setTask (s : PipeState) (t : Nat) (pipe : ScullPipe) (task : Task) : PipeState :=
  { s with pipe := pipe, tasks := s.tasks.set t task }

/-- A call that left its first locked section joins the calls in progress. -/
def addTask (s : PipeState) (pipe : ScullPipe) (task : Task) : PipeState :=
  { s with pipe := pipe, tasks := s.tasks ++ [task] }

/-- `O_NONBLOCK` in the flags of a file. -/
def nonblock (s : PipeState) (file : Nat) : Bool :=
  match s.files[file]? with
  | some f => f.nonblock
  | none => false

/-- An open has left its locked section: it failed, or the file exists from here on. -/
def finishOpen (s : PipeState) (mode : AccMode) (nonblock : Bool) : Opening → PipeState × Effect
  | .failed err => (s, { ret := some (.openFailed err) })
  | .waiting => ({ s with tasks := s.tasks ++ [.openWait mode nonblock .cond] }, {})
  | .opened wakeOpenq =>
      ({ s with
          files := s.files ++ [⟨mode, nonblock, true⟩]
          tasks := if wakeOpenq then s.tasks.map Task.wakeOpenq else s.tasks },
        { ret := some .opened })

/-- The first locked section of an open, on either kind of pipe. -/
def openSection (s : PipeState) (mode : AccMode) (nonblock : Bool) (ch : Choice) :
    ScullPipe × Opening :=
  if s.pipe.idx = properFifoBehIdx then
    scullPProperOpen s.pipe s.tun.scullPLen mode nonblock ch
  else scullPOpen s.pipe s.tun.scullPLen mode ch

/-- The start of an open. -/
def openStep (s : PipeState) (mode : AccMode) (nonblock : Bool) (ch : Choice) :
    PipeState × Effect :=
  if ch.intr then (s, { ret := some (.openFailed .ERESTARTSYS) })
  else
    let (pipe, outcome) := s.openSection mode nonblock ch
    finishOpen { s with pipe := pipe } mode nonblock outcome

/-- A release: an interrupted one returns without touching the pipe, and the file is gone in
any case. -/
def releaseStep (s : PipeState) (file : Nat) (f : File) (ch : Choice) : PipeState × Effect :=
  let gone := { s with files := s.files.set file { f with live := false } }
  if ch.intr then (gone, { ret := some (.releaseFailed .ERESTARTSYS) })
  else ({ gone with pipe := scullPRelease s.pipe f.mode }, { ret := some .released })

/-- One step of a reader in its wait loop. -/
def readWaitStep (s : PipeState) (t file count : Nat) (phase : Wait) (ch : Choice) :
    Option (PipeState × Effect) :=
  match phase with
  | .relock =>
      if ch.intr then
        some (s.setTask t s.pipe .returned, { ret := some (.failed .ERESTARTSYS) })
      else
        let (pipe, task, e) := scullPRead s.pipe (s.nonblock file) file count ch
        some (s.setTask t pipe task, e)
  | phase =>
      match Wait.waitEvent (s.pipe.rp != s.pipe.wp) ch.intr phase with
      | .blocked => none
      | .interrupted => some (s.setTask t s.pipe .returned, { ret := some (.failed .ERESTARTSYS) })
      | .next phase => some (s.setTask t s.pipe (.readWait file count phase), {})

/-- One step of a writer in the loop of `scull_getwritespace`. -/
def writeWaitStep (s : PipeState) (t file : Nat) (data : List UInt8) (phase : Wait)
    (ch : Choice) : Option (PipeState × Effect) :=
  match phase with
  | .relock =>
      if ch.intr then
        some (s.setTask t s.pipe .returned, { ret := some (.failed .ERESTARTSYS) })
      else
        let (pipe, task, e) := scullPWrite s.pipe (s.nonblock file) file data ch
        some (s.setTask t pipe task, e)
  | phase =>
      match Wait.waitOnce (spacefree s.pipe != 0) ch.intr phase with
      | .blocked => none
      | .interrupted => some (s.setTask t s.pipe .returned, { ret := some (.failed .ERESTARTSYS) })
      | .next phase => some (s.setTask t s.pipe (.writeWait file data phase), {})

/-- One step of an open that waits for a writer. An interrupted one returns with its increment
of `readers` in place. -/
def openWaitStep (s : PipeState) (t : Nat) (mode : AccMode) (nonblock : Bool) (phase : Wait)
    (ch : Choice) : Option (PipeState × Effect) :=
  match phase with
  | .relock =>
      if ch.intr then
        some (s.setTask t s.pipe .returned, { ret := some (.openFailed .ERESTARTSYS) })
      else if s.pipe.writers = 0 then
        -- the writer that woke this open has gone again
        some (s.setTask t s.pipe (.openWait mode nonblock .cond), {})
      else
        some ({ s.setTask t s.pipe .returned with files := s.files ++ [⟨mode, nonblock, true⟩] },
          { ret := some .opened })
  | phase =>
      match Wait.waitEvent (s.pipe.writers != 0) ch.intr phase with
      | .blocked => none
      | .interrupted =>
          some (s.setTask t s.pipe .returned, { ret := some (.openFailed .ERESTARTSYS) })
      | .next phase => some (s.setTask t s.pipe (.openWait mode nonblock phase), {})

/-- One step of a call in progress. -/
def taskStep (s : PipeState) (t : Nat) (task : Task) (ch : Choice) :
    Option (PipeState × Effect) :=
  match task with
  | .readWait file count phase => s.readWaitStep t file count phase ch
  | .readWake _ count =>
      some ({ s with tasks := (s.tasks.set t .returned).map Task.wakeOutq },
        { ret := some (.transferred count) })
  | .writeWait file data phase => s.writeWaitStep t file data phase ch
  | .writeWake _ count =>
      some ({ s with tasks := (s.tasks.set t .returned).map Task.wakeInq },
        { ret := some (.transferred count) })
  | .openWait mode nonblock phase => s.openWaitStep t mode nonblock phase ch
  | .returned => none

/-- The start of a read or a write on a live file: an interrupted one has no effect. -/
def callStep (s : PipeState) (ch : Choice) (outcome : ScullPipe × Task × Effect) :
    PipeState × Effect :=
  if ch.intr then (s, { ret := some (.failed .ERESTARTSYS) })
  else
    let (pipe, task, e) := outcome
    (s.addTask pipe task, e)

/-- One step of the clients of the pipe. -/
def step (s : PipeState) : PipeAction → Option (PipeState × Effect)
  | .openFile mode nonblock ch => some (s.openStep mode nonblock ch)
  | .release file ch =>
      match s.liveFile file with
      | some f =>
          -- the kernel calls release when no call on the file is left
          if s.tasks.any fun task => task.file == some file then none
          else some (s.releaseStep file f ch)
      | none => none
  | .read file count ch =>
      match s.liveFile file with
      | some f =>
          if f.mode.read then
            some (s.callStep ch (scullPReadEntry s.pipe f.nonblock file count ch))
          else none
      | none => none
  | .write file data ch =>
      match s.liveFile file with
      | some f =>
          if f.mode.write then
            some (s.callStep ch (scullPWrite s.pipe f.nonblock file data ch))
          else none
      | none => none
  | .ioctl cmd arg env =>
      let result := scullIoctl s.tun cmd arg env
      some ({ s with tun := result.tunables }, { ret := some (.ioctl result.ret) })
  | .task t ch =>
      match s.tasks[t]? with
      | some task => s.taskStep t task ch
      | none => none

/-- The steps of `step`, one constructor for each kind. -/
inductive Step (s : PipeState) : PipeAction → Effect → PipeState → Prop where
  | openInterrupted (mode nonblock ch) : ch.intr = true →
      Step s (.openFile mode nonblock ch) { ret := some (.openFailed .ERESTARTSYS) } s
  | openFailed (mode nonblock ch pipe err) : ch.intr = false →
      s.openSection mode nonblock ch = (pipe, .failed err) →
      Step s (.openFile mode nonblock ch) { ret := some (.openFailed err) } { s with pipe := pipe }
  | openWaits (mode nonblock ch pipe) : ch.intr = false →
      s.openSection mode nonblock ch = (pipe, .waiting) →
      Step s (.openFile mode nonblock ch) {}
        { s with pipe := pipe, tasks := s.tasks ++ [.openWait mode nonblock .cond] }
  | opened (mode nonblock ch pipe wakeOpenq) : ch.intr = false →
      s.openSection mode nonblock ch = (pipe, .opened wakeOpenq) →
      Step s (.openFile mode nonblock ch) { ret := some .opened }
        { s with
          pipe := pipe
          files := s.files ++ [⟨mode, nonblock, true⟩]
          tasks := if wakeOpenq then s.tasks.map Task.wakeOpenq else s.tasks }
  | releaseInterrupted (file f ch) :
      s.files[file]? = some f → f.live = true → ch.intr = true →
      (∀ task ∈ s.tasks, task.file ≠ some file) →
      Step s (.release file ch) { ret := some (.releaseFailed .ERESTARTSYS) }
        { s with files := s.files.set file { f with live := false } }
  | released (file f ch) :
      s.files[file]? = some f → f.live = true → ch.intr = false →
      (∀ task ∈ s.tasks, task.file ≠ some file) →
      Step s (.release file ch) { ret := some .released }
        { s with
          pipe := scullPRelease s.pipe f.mode
          files := s.files.set file { f with live := false } }
  | readInterrupted (file count ch) : ch.intr = true →
      Step s (.read file count ch) { ret := some (.failed .ERESTARTSYS) } s
  | endOfFile (file count ch) :
      s.pipe.idx = properFifoBehIdx → s.pipe.rp = s.pipe.wp → s.pipe.writers = 0 →
      Step s (.read file count ch) { ret := some (.transferred 0) } (s.addTask s.pipe .returned)
  | read (file f count ch pipe task e) :
      s.files[file]? = some f → f.live = true → f.mode.read = true → ch.intr = false →
      scullPRead s.pipe f.nonblock file count ch = (pipe, task, e) →
      Step s (.read file count ch) e (s.addTask pipe task)
  | writeInterrupted (file data ch) : ch.intr = true →
      Step s (.write file data ch) { ret := some (.failed .ERESTARTSYS) } s
  | write (file f data ch pipe task e) :
      s.files[file]? = some f → f.live = true → f.mode.write = true → ch.intr = false →
      scullPWrite s.pipe f.nonblock file data ch = (pipe, task, e) →
      Step s (.write file data ch) e (s.addTask pipe task)
  | ioctl (cmd arg env) :
      Step s (.ioctl cmd arg env) { ret := some (.ioctl (scullIoctl s.tun cmd arg env).ret) }
        { s with tun := (scullIoctl s.tun cmd arg env).tunables }
  | readWait (t ch file count phase next) :
      s.tasks[t]? = some (.readWait file count phase) →
      Wait.waitEvent (s.pipe.rp != s.pipe.wp) ch.intr phase = .next next →
      Step s (.task t ch) {} (s.setTask t s.pipe (.readWait file count next))
  | readSignalled (t ch file count phase) :
      s.tasks[t]? = some (.readWait file count phase) → ch.intr = true →
      Step s (.task t ch) { ret := some (.failed .ERESTARTSYS) } (s.setTask t s.pipe .returned)
  | readAgain (t ch file count pipe task e) :
      s.tasks[t]? = some (.readWait file count .relock) → ch.intr = false →
      scullPRead s.pipe (s.nonblock file) file count ch = (pipe, task, e) →
      Step s (.task t ch) e (s.setTask t pipe task)
  | readWake (t ch file count) :
      s.tasks[t]? = some (.readWake file count) →
      Step s (.task t ch) { ret := some (.transferred count) }
        { s with tasks := (s.tasks.set t .returned).map Task.wakeOutq }
  | writeWait (t ch file data phase next) :
      s.tasks[t]? = some (.writeWait file data phase) →
      Wait.waitOnce (spacefree s.pipe != 0) ch.intr phase = .next next →
      Step s (.task t ch) {} (s.setTask t s.pipe (.writeWait file data next))
  | writeSignalled (t ch file data phase) :
      s.tasks[t]? = some (.writeWait file data phase) → ch.intr = true →
      Step s (.task t ch) { ret := some (.failed .ERESTARTSYS) } (s.setTask t s.pipe .returned)
  | writeAgain (t ch file data pipe task e) :
      s.tasks[t]? = some (.writeWait file data .relock) → ch.intr = false →
      scullPWrite s.pipe (s.nonblock file) file data ch = (pipe, task, e) →
      Step s (.task t ch) e (s.setTask t pipe task)
  | writeWake (t ch file count) :
      s.tasks[t]? = some (.writeWake file count) →
      Step s (.task t ch) { ret := some (.transferred count) }
        { s with tasks := (s.tasks.set t .returned).map Task.wakeInq }
  | openWait (t ch mode nonblock phase next) :
      s.tasks[t]? = some (.openWait mode nonblock phase) →
      (phase = .relock → s.pipe.writers = 0) →
      Step s (.task t ch) {} (s.setTask t s.pipe (.openWait mode nonblock next))
  | openSignalled (t ch mode nonblock phase) :
      s.tasks[t]? = some (.openWait mode nonblock phase) → ch.intr = true →
      Step s (.task t ch) { ret := some (.openFailed .ERESTARTSYS) } (s.setTask t s.pipe .returned)
  | openedAgain (t ch mode nonblock) :
      s.tasks[t]? = some (.openWait mode nonblock .relock) → ch.intr = false →
      s.pipe.writers ≠ 0 →
      Step s (.task t ch) { ret := some .opened }
        { s.setTask t s.pipe .returned with files := s.files ++ [⟨mode, nonblock, true⟩] }

variable {s t : PipeState} {a : PipeAction} {e : Effect}

/-- A live file is a file of the state. -/
theorem live_file_eq_some {file : Nat} {f : File} (h : s.liveFile file = some f) :
    s.files[file]? = some f ∧ f.live = true := by
  unfold liveFile at h
  split at h
  · rename_i g hg
    split at h
    · cases h
      exact ⟨hg, by assumption⟩
    · cases h
  · cases h

/-- The start of an open takes one of the four open steps. -/
theorem open_step_sound {mode : AccMode} {nonblock : Bool} {ch : Choice}
    (h : s.openStep mode nonblock ch = (t, e)) : Step s (.openFile mode nonblock ch) e t := by
  unfold openStep at h
  split at h
  · rename_i hintr
    cases h
    exact .openInterrupted _ _ _ hintr
  · rename_i hintr
    have hintr : ch.intr = false := by simpa using hintr
    cases hsection : s.openSection mode nonblock ch with
    | mk pipe outcome =>
        simp only [hsection] at h
        cases outcome with
        | failed err =>
            cases h
            exact .openFailed _ _ _ _ _ hintr hsection
        | waiting =>
            cases h
            exact .openWaits _ _ _ _ hintr hsection
        | opened wakeOpenq =>
            cases h
            exact .opened _ _ _ _ _ hintr hsection

/-- A reader in its wait loop takes one of the three reader steps. -/
theorem read_wait_step_sound {i file count : Nat} {phase : Wait} {ch : Choice}
    (htask : s.tasks[i]? = some (.readWait file count phase))
    (h : s.readWaitStep i file count phase ch = some (t, e)) : Step s (.task i ch) e t := by
  unfold readWaitStep at h
  split at h
  · split at h
    · rename_i hintr
      cases h
      exact .readSignalled _ _ _ _ _ htask hintr
    · rename_i hintr
      cases h
      exact .readAgain _ _ _ _ _ _ _ htask (by simpa using hintr) rfl
  · split at h
    · cases h
    · rename_i hwait
      cases h
      exact .readSignalled _ _ _ _ _ htask (Wait.signal_of_wait_event hwait)
    · rename_i hwait
      cases h
      exact .readWait _ _ _ _ _ _ htask hwait

/-- A writer in its wait loop takes one of the three writer steps. -/
theorem write_wait_step_sound {i file : Nat} {data : List UInt8} {phase : Wait} {ch : Choice}
    (htask : s.tasks[i]? = some (.writeWait file data phase))
    (h : s.writeWaitStep i file data phase ch = some (t, e)) : Step s (.task i ch) e t := by
  unfold writeWaitStep at h
  split at h
  · split at h
    · rename_i hintr
      cases h
      exact .writeSignalled _ _ _ _ _ htask hintr
    · rename_i hintr
      cases h
      exact .writeAgain _ _ _ _ _ _ _ htask (by simpa using hintr) rfl
  · split at h
    · cases h
    · rename_i hwait
      exact absurd hwait (Wait.wait_once_ne_interrupted _ _ _)
    · rename_i hwait
      cases h
      exact .writeWait _ _ _ _ _ _ htask hwait

/-- A waiting open takes one of the three steps of waiting opens. -/
theorem open_wait_step_sound {i : Nat} {mode : AccMode} {nonblock : Bool} {phase : Wait}
    {ch : Choice} (htask : s.tasks[i]? = some (.openWait mode nonblock phase))
    (h : s.openWaitStep i mode nonblock phase ch = some (t, e)) : Step s (.task i ch) e t := by
  unfold openWaitStep at h
  split at h
  · split at h
    · rename_i hintr
      cases h
      exact .openSignalled _ _ _ _ _ htask hintr
    · rename_i hintr
      split at h
      · rename_i hwriters
        cases h
        exact .openWait _ _ _ _ _ _ htask (fun _ => hwriters)
      · rename_i hwriters
        cases h
        exact .openedAgain _ _ _ _ htask (by simpa using hintr) hwriters
  · rename_i hphase
    split at h
    · cases h
    · rename_i hwait
      cases h
      exact .openSignalled _ _ _ _ _ htask (Wait.signal_of_wait_event hwait)
    · cases h
      exact .openWait _ _ _ _ _ _ htask (fun heq => absurd heq hphase)

/-- Every step of the machine is one of the listed kinds. -/
theorem step_sound (h : s.step a = some (t, e)) : Step s a e t := by
  cases a with
  | openFile mode nonblock ch => exact open_step_sound (Option.some.inj h)
  | release file ch =>
      simp only [step] at h
      split at h
      · rename_i f hlive
        obtain ⟨hfile, hlive⟩ := live_file_eq_some hlive
        split at h
        · cases h
        · rename_i hidle
          have hidle : ∀ task ∈ s.tasks, task.file ≠ some file := fun task hmem heq =>
            hidle (List.any_eq_true.mpr ⟨task, hmem, by simp [heq]⟩)
          simp only [releaseStep] at h
          split at h
          · rename_i hintr
            cases h
            exact .releaseInterrupted _ _ _ hfile hlive hintr hidle
          · rename_i hintr
            cases h
            exact .released _ _ _ hfile hlive (by simpa using hintr) hidle
      · cases h
  | read file count ch =>
      simp only [step] at h
      split at h
      · rename_i f hlive
        obtain ⟨hfile, hlive⟩ := live_file_eq_some hlive
        split at h
        · rename_i hmode
          simp only [callStep, scullPReadEntry] at h
          split at h
          · rename_i hintr
            cases h
            exact .readInterrupted _ _ _ hintr
          · rename_i hintr
            split at h
            · rename_i heof
              cases h
              exact .endOfFile _ _ _ heof.1 heof.2.1 heof.2.2
            · cases h
              exact .read _ _ _ _ _ _ _ hfile hlive hmode (by simpa using hintr) rfl
        · cases h
      · cases h
  | write file data ch =>
      simp only [step] at h
      split at h
      · rename_i f hlive
        obtain ⟨hfile, hlive⟩ := live_file_eq_some hlive
        split at h
        · rename_i hmode
          simp only [callStep] at h
          split at h
          · rename_i hintr
            cases h
            exact .writeInterrupted _ _ _ hintr
          · rename_i hintr
            cases h
            exact .write _ _ _ _ _ _ _ hfile hlive hmode (by simpa using hintr) rfl
        · cases h
      · cases h
  | ioctl cmd arg env =>
      cases h
      exact .ioctl _ _ _
  | task i ch =>
      simp only [step] at h
      split at h
      · rename_i task htask
        cases task with
        | readWait file count phase => exact read_wait_step_sound htask h
        | readWake file count =>
            cases h
            exact .readWake _ _ _ _ htask
        | writeWait file data phase => exact write_wait_step_sound htask h
        | writeWake file count =>
            cases h
            exact .writeWake _ _ _ _ htask
        | openWait mode nonblock phase => exact open_wait_step_sound htask h
        | returned => cases h
      · cases h

/-- What the locked section of an open does, by kind of pipe and access mode. -/
inductive OpenOutcome (s : PipeState) (mode : AccMode) (nonblock : Bool) (ch : Choice) :
    ScullPipe → Opening → Prop where
  | ordinaryFailed :
      s.pipe.idx ≠ properFifoBehIdx → bufferFound s.pipe s.tun.scullPLen ch = false →
      OpenOutcome s mode nonblock ch s.pipe (.failed .ENOMEM)
  | ordinary (pipe) :
      s.pipe.idx ≠ properFifoBehIdx → SetUp s.pipe s.tun.scullPLen pipe →
      pipe.readers = s.pipe.readers + (if mode.read then 1 else 0) →
      pipe.writers = s.pipe.writers + (if mode.write then 1 else 0) →
      bufferFound s.pipe s.tun.scullPLen ch = true →
      OpenOutcome s mode nonblock ch pipe (.opened false)
  | wouldBlock :
      s.pipe.idx = properFifoBehIdx → mode.read = true → nonblock = true → s.pipe.writers = 0 →
      OpenOutcome s mode nonblock ch s.pipe (.failed .EAGAIN)
  | waits :
      s.pipe.idx = properFifoBehIdx → mode.read = true → s.pipe.writers = 0 →
      OpenOutcome s mode nonblock ch { s.pipe with readers := s.pipe.readers + 1 } .waiting
  | reader :
      s.pipe.idx = properFifoBehIdx → mode.read = true → s.pipe.writers ≠ 0 →
      OpenOutcome s mode nonblock ch { s.pipe with readers := s.pipe.readers + 1 } (.opened false)
  | writerFailed :
      s.pipe.idx = properFifoBehIdx → mode.read = false →
      bufferFound s.pipe s.tun.scullPLen ch = false →
      OpenOutcome s mode nonblock ch { s.pipe with writers := s.pipe.writers + 1 }
        (.failed .ENOMEM)
  | writer (pipe) :
      s.pipe.idx = properFifoBehIdx → mode.read = false → SetUp s.pipe s.tun.scullPLen pipe →
      pipe.readers = s.pipe.readers → pipe.writers = s.pipe.writers + 1 →
      bufferFound s.pipe s.tun.scullPLen ch = true →
      OpenOutcome s mode nonblock ch pipe (.opened (decide (pipe.readers ≠ 0)))

/-- The locked section of an open has one of the listed outcomes. -/
theorem open_outcome {mode : AccMode} {nonblock : Bool} {ch : Choice} {pipe : ScullPipe}
    {outcome : Opening} (h : s.openSection mode nonblock ch = (pipe, outcome)) :
    OpenOutcome s mode nonblock ch pipe outcome := by
  unfold openSection at h
  split at h
  · rename_i hidx
    unfold scullPProperOpen at h
    split at h
    · rename_i hread
      split at h
      · rename_i hblock
        cases h
        exact .wouldBlock hidx hread hblock.1 hblock.2
      · split at h
        · rename_i hwriters
          cases h
          exact .waits hidx hread hwriters
        · rename_i hwriters
          cases h
          exact .reader hidx hread hwriters
    · rename_i hread
      have hread : mode.read = false := by simpa using hread
      have hfound := setup_buf_is_some { s.pipe with writers := s.pipe.writers + 1 }
        s.tun.scullPLen ch
      simp only at h
      split at h
      · rename_i hbuf
        rw [hbuf] at hfound
        cases h
        exact .writerFailed hidx hread hfound.symm
      · rename_i dev hbuf
        obtain ⟨hsetup, hreaders, hwriters⟩ := setup_buf_eq_some hbuf
        rw [hbuf] at hfound
        cases h
        exact .writer _ hidx hread
          ⟨hsetup.idx, hsetup.bufLen, hsetup.endp, hsetup.rp, hsetup.wp, hsetup.block⟩
          hreaders hwriters hfound.symm
  · rename_i hidx
    have hfound := setup_buf_is_some s.pipe s.tun.scullPLen ch
    unfold scullPOpen at h
    split at h
    · rename_i hbuf
      rw [hbuf] at hfound
      cases h
      exact .ordinaryFailed hidx hfound.symm
    · rename_i dev hbuf
      obtain ⟨hsetup, hreaders, hwriters⟩ := setup_buf_eq_some hbuf
      rw [hbuf] at hfound
      cases h
      exact .ordinary _ hidx
        ⟨hsetup.idx, hsetup.bufLen, hsetup.endp, hsetup.rp, hsetup.wp, hsetup.block⟩
        (by simp only [hreaders]) (by simp only [hwriters]) hfound.symm

/-- The action is an open that runs the buffer set-up: any open of an ordinary pipe, and an open
of the proper FIFO for writing only. -/
def setsUp (s : PipeState) : PipeAction → Bool
  | .openFile mode _ ch => !ch.intr && (s.pipe.idx != properFifoBehIdx || !mode.read)
  | _ => false

end PipeState

end Ldd3.Scull
