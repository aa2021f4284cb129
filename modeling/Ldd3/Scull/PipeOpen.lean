import Ldd3.Scull.IoctlForms
import Ldd3.Scull.PipeQueue
import Ldd3.Scull.PipeWakeup
import Mathlib.Logic.Function.Basic

/-!
# Opening a pipe in use

What an open does to a pipe that other clients are using. An open that fails should leave no
trace: `failed_open_iff` follows the share of every call in the counters and names the failures
that leave theirs behind. An open that succeeds should keep the bytes that are on their way:
`open_keeps_bytes_iff` follows the bytes accepted and not yet read, and names the opens that drop
them. For the latter the ring of `PipeQueue` is carried through whole runs, whatever lengths the
opens set up (`Stores`).
-/

namespace Ldd3.Scull

/-- The pipe stores these bytes: it is a ring with these contents, or it has no length yet. -/
inductive Stores (dev : ScullPipe) (bytes : List UInt8) : Prop where
  | void : dev.bufLen = 0 → dev.endp = 0 → dev.rp = 0 → dev.wp = 0 → bytes = [] → Stores dev bytes
  | ring (r : Ring UInt8) : RingOf dev r → r.len < 2 ^ 64 → r.items = bytes → Stores dev bytes

section Stores

variable {dev dev' : ScullPipe} {bytes : List UInt8} {nonblock : Bool} {file count pLen : Nat}
  {data : List UInt8} {ch : Choice} {task : Task} {e : Effect}

/-- The stored bytes are the queued ones. -/
theorem Stores.queued (h : Stores dev bytes) : dev.queued = bytes := by
  cases h with
  | void _ _ hrp hwp hbytes => simp [ScullPipe.queued, hrp, hwp, hbytes, slice]
  | ring r hring _ hitems => rw [hring.queued, hitems]

/-- Equal pointers mean that nothing is stored. -/
theorem Stores.eq_nil_iff (h : Stores dev bytes) : bytes = [] ↔ dev.rp = dev.wp := by
  cases h with
  | void _ _ hrp hwp hbytes => exact iff_of_true hbytes (hrp.trans hwp.symm)
  | ring r hring _ hitems =>
      rw [← hitems, ← List.length_eq_zero_iff, Ring.length_items, Ring.size_eq_zero_iff, hring.rp,
        hring.wp]

/-- The buffer set-up leaves a pipe that stores nothing. -/
theorem SetUp.stores (h : SetUp dev pLen dev') (hlen : pLen < 2 ^ 64) : Stores dev' [] := by
  rcases Nat.eq_zero_or_pos pLen with hzero | hpos
  · exact .void (h.bufLen.trans hzero) (h.endp.trans hzero) h.rp h.wp rfl
  · refine .ring ⟨dev'.mem, pLen, 0, 0, hpos, hpos⟩ ⟨rfl, h.bufLen, h.endp, h.rp, h.wp⟩ hlen ?_
    simp [Ring.items, Ring.size]

/-- What is stored depends on the bytes of the buffer and the pointers only. -/
structure SameBytes (dev dev' : ScullPipe) : Prop where
  mem : dev'.mem = dev.mem
  bufLen : dev'.bufLen = dev.bufLen
  endp : dev'.endp = dev.endp
  rp : dev'.rp = dev.rp
  wp : dev'.wp = dev.wp

theorem SameBytes.queued (h : SameBytes dev dev') : dev'.queued = dev.queued := by
  simp only [ScullPipe.queued, h.mem, h.endp, h.rp, h.wp]

theorem SameBytes.stores (h : SameBytes dev dev') (hstores : Stores dev bytes) :
    Stores dev' bytes := by
  cases hstores with
  | void hlen hend hrp hwp hbytes =>
      exact .void (h.bufLen.trans hlen) (h.endp.trans hend) (h.rp.trans hrp) (h.wp.trans hwp) hbytes
  | ring r hring hlen hitems =>
      exact .ring r ⟨h.mem.trans hring.mem, h.bufLen.trans hring.bufLen, h.endp.trans hring.endp,
        h.rp.trans hring.rp, h.wp.trans hring.wp⟩ hlen hitems

/-- A read takes from the front of what is stored. -/
theorem Stores.read (h : Stores dev bytes)
    (hsection : scullPRead dev nonblock file count ch = (dev', task, e)) :
    e.took <+: bytes ∧ e.put = [] ∧ Stores dev' (bytes.drop e.took.length) := by
  cases h with
  | void hlen hend hrp hwp hbytes =>
      unfold scullPRead at hsection
      rw [if_pos (hrp.trans hwp.symm)] at hsection
      split at hsection <;> cases hsection <;>
        exact ⟨List.nil_prefix, rfl, .void hlen hend hrp hwp hbytes⟩
  | ring r hring hlen hitems =>
      subst hitems
      rcases hring.read_spec hsection with ⟨rfl, -, htook, hput⟩ |
          ⟨n, hn, -, -, hring', -, -, htook, hput⟩
      · rw [htook]
        exact ⟨List.nil_prefix, hput, .ring r hring hlen rfl⟩
      · have hpop := r.items_pop n hn
        rw [htook, hpop]
        exact ⟨List.prefix_append _ _, hput,
          .ring _ hring' hlen (List.drop_left' rfl).symm⟩

/-- A write appends to what is stored. -/
theorem Stores.write (h : Stores dev bytes)
    (hsection : scullPWrite dev nonblock file data ch = (dev', task, e)) :
    e.took = [] ∧ Stores dev' (bytes ++ e.put) := by
  cases h with
  | void hlen hend hrp hwp hbytes =>
      -- the free space of a buffer of no length wraps around, but no byte lies before its end
      have hcount : writeCount dev data.length = 0 := by
        simp [writeCount, hrp, hwp, hend]
      unfold scullPWrite at hsection
      simp only [hcount] at hsection
      split at hsection
      · split at hsection <;> cases hsection <;>
          exact ⟨rfl, .void hlen hend hrp hwp (by simp [hbytes])⟩
      · split at hsection <;> cases hsection
        · exact ⟨rfl, .void hlen hend hrp hwp (by simp [hbytes])⟩
        · exact ⟨rfl, .void hlen hend hrp (by simp [hwp, hend]) (by simp [hbytes])⟩
  | ring r hring hlen hitems =>
      subst hitems
      rcases hring.write_spec hlen hsection with ⟨cells, hring', hitems, -, htook, hput⟩ |
          ⟨n, hn, -, -, hring', -, -, htook, hput⟩
      · exact ⟨htook, .ring _ hring' hlen (by rw [hput, hitems, List.append_nil])⟩
      · exact ⟨htook, .ring _ hring' hlen (by rw [hput, r.items_push _ hn])⟩

end Stores

/-- An ioctl leaves the length of the pipes an `unsigned long`. -/
theorem scull_ioctl_p_len_lt (tun : Tunables) (cmd : BitVec 32) (arg : BitVec 64) (env : IoctlEnv)
    (h : tun.scullPLen < 2 ^ 64) : (scullIoctl tun cmd arg env).tunables.scullPLen < 2 ^ 64 := by
  rcases scull_ioctl_cases tun cmd arg env with ⟨c, -, heq⟩ | ⟨-, err, heq⟩
  · rw [heq]
    cases c with
    | pIoctsize => exact arg.isLt
    | iocreset | iocgquantum | iocqquantum | pIocqsize => exact h
    | ioctquantum | iochquantum =>
        simp only [ioctlSwitch]
        split <;> exact h
    | iocsquantum =>
        cases hcap : env.capable <;> cases huser : env.user <;>
          simpa [ioctlSwitch, getUserQuantum, hcap, huser] using h
    | iocxquantum =>
        cases hcap : env.capable <;> cases huser : env.user <;>
          simpa [ioctlSwitch, getUserQuantum, hcap, huser] using h
  · rw [heq]
    exact h

/-- The action begins a call. -/
def PipeAction.begins : PipeAction → Bool
  | task _ _ => false
  | _ => true

namespace PipeState

variable {u v : PipeState} {a : PipeAction} {e : Effect} {bytes : List UInt8}

/-- An open that does not set up the buffer, or a release, leaves the bytes and the pointers
alone. -/
theorem Step.files_bytes (h : Step u a e v) (ha : a.keepsFiles = false)
    (hreset : u.resets a = false) : SameBytes u.pipe v.pipe ∧ e.took = [] ∧ e.put = [] := by
  cases h with
  | openInterrupted | releaseInterrupted | released => exact ⟨⟨rfl, rfl, rfl, rfl, rfl⟩, rfl, rfl⟩
  | openFailed mode nonblock ch pipe err hintr hsection =>
      cases open_outcome hsection with
      | ordinaryFailed | wouldBlock | writerFailed => exact ⟨⟨rfl, rfl, rfl, rfl, rfl⟩, rfl, rfl⟩
  | openWaits mode nonblock ch pipe hintr hsection =>
      cases open_outcome hsection with
      | waits => exact ⟨⟨rfl, rfl, rfl, rfl, rfl⟩, rfl, rfl⟩
  | opened mode nonblock ch pipe wakeOpenq hintr hsection =>
      cases open_outcome hsection with
      | ordinary _ hidx _ _ _ hfound => simp [resets, setsUp, hintr, hidx, hfound] at hreset
      | reader => exact ⟨⟨rfl, rfl, rfl, rfl, rfl⟩, rfl, rfl⟩
      | writer _ _ hmode _ _ _ hfound => simp [resets, setsUp, hintr, hmode, hfound] at hreset
  | _ => cases ha

/-- A step that does not set up the buffer executes a locked section of a read or a write, or it
leaves the bytes and the pointers alone. -/
theorem Step.bytes_cases (h : Step u a e v) (hreset : u.resets a = false) :
    (SameBytes u.pipe v.pipe ∧ e.took = [] ∧ e.put = []) ∨
      (∃ nonblock file count ch task,
        scullPRead u.pipe nonblock file count ch = (v.pipe, task, e)) ∨
      ∃ nonblock file data ch task,
        scullPWrite u.pipe nonblock file data ch = (v.pipe, task, e) := by
  cases ha : a.keepsFiles with
  | false => exact .inl (h.files_bytes ha hreset)
  | true =>
      rcases h.transfer_cases ha with ⟨hpipe, -, htook, hput⟩ |
          ⟨_, _, _, _, _, -, -, -, hsection⟩ | ⟨_, _, _, _, _, -, -, -, hsection⟩
      · refine .inl ⟨?_, htook, hput⟩
        rw [hpipe]
        exact ⟨rfl, rfl, rfl, rfl, rfl⟩
      · exact .inr (.inl ⟨_, _, _, _, _, hsection⟩)
      · exact .inr (.inr ⟨_, _, _, _, _, hsection⟩)

/-- Without a set-up, a step takes from the front of the stored bytes and appends to their end. -/
theorem Step.stores (h : Step u a e v) (hreset : u.resets a = false)
    (hstores : Stores u.pipe bytes) :
    e.took <+: bytes ∧ Stores v.pipe (bytes.drop e.took.length ++ e.put) := by
  rcases h.bytes_cases hreset with ⟨hsame, htook, hput⟩ | ⟨_, _, _, _, _, hsection⟩ |
      ⟨_, _, _, _, _, hsection⟩
  · rw [htook, hput]
    exact ⟨List.nil_prefix, by simpa using hsame.stores hstores⟩
  · obtain ⟨hfront, hput, hstores'⟩ := hstores.read hsection
    rw [hput, List.append_nil]
    exact ⟨hfront, hstores'⟩
  · obtain ⟨htook, hstores'⟩ := hstores.write hsection
    rw [htook]
    exact ⟨List.nil_prefix, hstores'⟩

/-- The length of the next set-up stays an `unsigned long`. -/
theorem Step.p_len_lt (h : Step u a e v) (hlen : u.tun.scullPLen < 2 ^ 64) :
    v.tun.scullPLen < 2 ^ 64 := by
  cases ha : a.isIoctl with
  | false =>
      rw [h.tun ha]
      exact hlen
  | true =>
      cases h with
      | ioctl cmd arg env => exact scull_ioctl_p_len_lt u.tun cmd arg env hlen
      | _ => cases ha

/-- The call at this place among the calls in progress is an open that waits for a writer. -/
def opensAt (tasks : List Task) (k : Nat) : Bool := tasks[k]?.any Task.isOpenWait

/-- The action is a step of an open. -/
def inOpen (s : PipeState) : PipeAction → Bool
  | .openFile _ _ _ => true
  | .task k _ => opensAt s.tasks k
  | _ => false

/-- A step of an open that does not set up the buffer keeps the queued bytes. -/
theorem Step.open_queued (h : Step u a e v) (hopen : u.inOpen a = true)
    (hreset : u.resets a = false) : v.pipe.queued = u.pipe.queued := by
  cases ha : a.keepsFiles with
  | false => exact (h.files_bytes ha hreset).1.queued
  | true =>
      cases h with
      | openWait | openSignalled | openedAgain => rfl
      | readWait _ _ _ _ _ _ htask | readSignalled _ _ _ _ _ htask | readWake _ _ _ _ htask =>
          simp [inOpen, opensAt, htask, Task.isOpenWait] at hopen
      | writeWait _ _ _ _ _ _ htask | writeSignalled _ _ _ _ _ htask | writeWake _ _ _ _ htask =>
          simp [inOpen, opensAt, htask, Task.isOpenWait] at hopen
      | readAgain _ _ _ _ _ _ _ htask | writeAgain _ _ _ _ _ _ _ htask =>
          simp [inOpen, opensAt, htask, Task.isOpenWait] at hopen
      | openInterrupted | openFailed | openWaits | opened => cases ha
      | releaseInterrupted | released => cases ha
      | readInterrupted | endOfFile | read | writeInterrupted | write | ioctl => cases hopen

/-- A step of an open that does not succeed creates no file. -/
theorem Step.open_files (h : Step u a e v) (hopen : u.inOpen a = true)
    (hret : e.ret ≠ some .opened) : v.files = u.files := by
  cases h with
  | opened | openedAgain => exact absurd rfl hret
  | releaseInterrupted | released => cases hopen
  | _ => rfl

section OpensAt

variable {tasks : List Task} {new : Task} {i k : Nat}

theorem opens_at_set_of_ne (h : k ≠ i) : opensAt (tasks.set i new) k = opensAt tasks k := by
  simp only [opensAt, List.getElem?_set_ne (Ne.symm h)]

theorem opens_at_set_self (h : opensAt (tasks.set i new) i = true) : new.isOpenWait = true := by
  rcases Nat.lt_or_ge i tasks.length with hlt | hge
  · simpa [opensAt, hlt] using h
  · simp [opensAt, hge] at h

theorem opens_at_append_of_ne (h : k ≠ tasks.length) :
    opensAt (tasks ++ [new]) k = opensAt tasks k := by
  rcases Nat.lt_or_ge k tasks.length with hlt | hge
  · simp only [opensAt, List.getElem?_append_left hlt]
  · have hnone : (tasks ++ [new])[k]? = none := List.getElem?_eq_none (by simp; omega)
    simp [opensAt, hge, hnone]

theorem opens_at_append_self : opensAt (tasks ++ [new]) tasks.length = new.isOpenWait := by
  simp [opensAt]

theorem opens_at_length : opensAt tasks tasks.length = false := by
  simp [opensAt]

theorem opens_at_map {wake : Task → Task} (h : ∀ task, (wake task).isOpenWait = task.isOpenWait) :
    opensAt (tasks.map wake) k = opensAt tasks k := by
  cases hk : tasks[k]? with
  | none => simp [opensAt, hk]
  | some task => simp [opensAt, hk, h]

theorem opens_at_wake_openq (wakeOpenq : Bool) :
    opensAt (if wakeOpenq then tasks.map Task.wakeOpenq else tasks) k = opensAt tasks k := by
  split
  · exact opens_at_map wake_openq_is_open_wait
  · rfl

end OpensAt

/-- The counters of the pipe. -/
def counters (s : PipeState) : Int × Int := (s.pipe.readers, s.pipe.writers)

/-- The place of the call that executes the action: its place among the calls in progress, or the
next one if it begins here. -/
def caller (s : PipeState) : PipeAction → Nat
  | .task k _ => k
  | _ => s.tasks.length

/-- The share of each call in the counters, after a step: what the call has changed before, and
what it changes now. -/
def addShare (shares : Nat → Int × Int) (s : PipeState) (a : PipeAction) (_ : Effect)
    (s' : PipeState) : Nat → Int × Int :=
  let before := if a.begins then (0, 0) else shares (s.caller a)
  Function.update shares (s.caller a)
    (before.1 + (s'.counters.1 - s.counters.1), before.2 + (s'.counters.2 - s.counters.2))

/-- The module just loaded: no call has a share. -/
def initShares (idx : Nat) (tun : Tunables) : PipeState × (Nat → Int × Int) :=
  (init idx tun, fun _ => (0, 0))

/-- A step keeps the other calls' places. -/
theorem Step.opens_at_of_ne (h : Step u a e v) {k : Nat} (hk : k ≠ u.caller a) :
    opensAt v.tasks k = opensAt u.tasks k := by
  cases h with
  | openInterrupted | openFailed | releaseInterrupted | released => rfl
  | readInterrupted | writeInterrupted | ioctl => rfl
  | opened => exact opens_at_wake_openq _
  | openWaits | endOfFile | read | write => exact opens_at_append_of_ne hk
  | readWait | readSignalled | readAgain => exact opens_at_set_of_ne hk
  | writeWait | writeSignalled | writeAgain => exact opens_at_set_of_ne hk
  | openWait | openSignalled | openedAgain => exact opens_at_set_of_ne hk
  | readWake => exact (opens_at_map wake_outq_is_open_wait).trans (opens_at_set_of_ne hk)
  | writeWake => exact (opens_at_map wake_inq_is_open_wait).trans (opens_at_set_of_ne hk)

/-- A call in progress after its step is a waiting open only if it has counted itself as a reader
now, or was one before and has left the counters alone. -/
theorem Step.opens_at_caller (h : Step u a e v) (hopen : opensAt v.tasks (u.caller a) = true) :
    a.begins = true ∧ v.counters = (u.counters.1 + 1, u.counters.2) ∨
      a.begins = false ∧ opensAt u.tasks (u.caller a) = true ∧ v.counters = u.counters := by
  have hnot : ∀ {i : Nat} {new : Task}, new.isOpenWait = false →
      opensAt (u.tasks.set i new) i = true → False := fun hnew h => by
    simp [opens_at_set_self h] at hnew
  cases h with
  | openInterrupted | openFailed | releaseInterrupted | released =>
      cases opens_at_length.symm.trans hopen
  | readInterrupted | writeInterrupted | ioctl => cases opens_at_length.symm.trans hopen
  | opened =>
      cases opens_at_length.symm.trans ((opens_at_wake_openq _).symm.trans hopen)
  | openWaits mode nonblock ch pipe hintr hsection =>
      cases open_outcome hsection with
      | waits => exact .inl ⟨rfl, by simp [counters]⟩
  | endOfFile => cases opens_at_append_self.symm.trans hopen
  | read file f count ch pipe task e _ _ _ _ hsection =>
      obtain ⟨-, -, -, -, hnew, -⟩ := scull_p_read_handles hsection
      cases hnew.symm.trans (opens_at_append_self.symm.trans hopen)
  | write file f data ch pipe task e _ _ _ _ hsection =>
      obtain ⟨-, -, -, -, hnew, -⟩ := scull_p_write_handles hsection
      cases hnew.symm.trans (opens_at_append_self.symm.trans hopen)
  | readWait | readSignalled | writeWait | writeSignalled | openSignalled | openedAgain =>
      exact (hnot rfl hopen).elim
  | readAgain t ch file count pipe task e _ _ hsection =>
      obtain ⟨-, -, -, -, hnew, -⟩ := scull_p_read_handles hsection
      exact (hnot hnew hopen).elim
  | writeAgain t ch file data pipe task e _ _ hsection =>
      obtain ⟨-, -, -, -, hnew, -⟩ := scull_p_write_handles hsection
      exact (hnot hnew hopen).elim
  | openWait t ch mode nonblock phase next htask =>
      exact .inr ⟨rfl, by simp [opensAt, caller, htask, Task.isOpenWait], rfl⟩
  | readWake => exact (hnot rfl ((opens_at_map wake_outq_is_open_wait).symm.trans hopen)).elim
  | writeWake => exact (hnot rfl ((opens_at_map wake_inq_is_open_wait).symm.trans hopen)).elim

/-- Every waiting open has counted itself as a reader, once. -/
def WaitersCounted (t : PipeState × (Nat → Int × Int)) : Prop :=
  ∀ k, opensAt t.1.tasks k = true → t.2 k = (1, 0)

/-- Every step keeps the shares of the waiting opens. -/
theorem Step.waiters_counted (h : Step u a e v) {shares : Nat → Int × Int}
    (hshares : WaitersCounted (u, shares)) : WaitersCounted (v, addShare shares u a e v) := by
  intro k hopen
  by_cases hk : k = u.caller a
  · subst hk
    rcases h.opens_at_caller hopen with ⟨hbegins, hcounters⟩ | ⟨hbegins, hbefore, hcounters⟩
    · simp only [addShare, hbegins, hcounters, if_true, Function.update_self, Prod.mk.injEq]
      omega
    · have hshare : shares (u.caller a) = (1, 0) := hshares _ hbefore
      simp [addShare, hbegins, hcounters, hshare]
  · have hbefore : opensAt u.tasks k = true := (h.opens_at_of_ne hk).symm.trans hopen
    simp only [addShare, Function.update_of_ne hk]
    exact hshares k hbefore

/-- The open fails with its count in place: an open for writing that gets no buffer has already
counted itself as a writer, and an open that waits for a writer, and that a signal ends in the wait
or at the lock, as a reader. -/
def leaks (s : PipeState) : PipeAction → Bool
  | .openFile mode _ ch =>
      !ch.intr && s.pipe.idx == properFifoBehIdx && !mode.read &&
        !bufferFound s.pipe s.tun.scullPLen ch
  | .task k ch =>
      match s.tasks[k]? with
      | some (.openWait _ _ .prepare) => ch.intr && s.pipe.writers == 0
      | some (.openWait _ _ .relock) => ch.intr
      | _ => false
  | _ => false

/-- The locked section of a read is no open. -/
theorem scull_p_read_ret {dev dev' : ScullPipe} {nonblock : Bool} {file count : Nat} {ch : Choice}
    {task : Task} (h : scullPRead dev nonblock file count ch = (dev', task, e)) (err : Errno) :
    e.ret ≠ some (.openFailed err) := by
  unfold scullPRead at h
  split at h <;> split at h <;> cases h <;> simp

/-- The locked section of a write is no open. -/
theorem scull_p_write_ret {dev dev' : ScullPipe} {nonblock : Bool} {file : Nat} {data : List UInt8}
    {ch : Choice} {task : Task} (h : scullPWrite dev nonblock file data ch = (dev', task, e))
    (err : Errno) : e.ret ≠ some (.openFailed err) := by
  unfold scullPWrite at h
  split at h <;> split at h <;> cases h <;> simp

/-- A waiting open that a signal ends leaks. -/
theorem leaks_of_signalled {k : Nat} {ch : Choice} {mode : AccMode} {nonblock : Bool} {phase : Wait}
    (htask : u.tasks[k]? = some (.openWait mode nonblock phase)) (hintr : ch.intr = true)
    (h : u.step (.task k ch) = some (v, { ret := some (.openFailed .ERESTARTSYS) })) :
    u.leaks (.task k ch) = true := by
  simp only [step, htask, taskStep, openWaitStep] at h
  cases phase with
  | relock => simp [leaks, htask, hintr]
  | prepare =>
      by_cases hwriters : u.pipe.writers = 0
      · simp [leaks, htask, hintr, hwriters]
      · simp [Wait.waitEvent, hintr, hwriters] at h
  | cond | test _ | sched _ => simp [Wait.waitEvent, hintr] at h

/-- An open that fails and does not leak has just begun and has left the counters alone. -/
theorem failed_of_not_leaks (h : u.step a = some (v, e)) (hleaks : u.leaks a = false) {err : Errno}
    (hret : e.ret = some (.openFailed err)) : a.begins = true ∧ v.counters = u.counters := by
  cases step_sound h with
  | openInterrupted => exact ⟨rfl, rfl⟩
  | openFailed mode nonblock ch pipe err hintr hsection =>
      cases open_outcome hsection with
      | ordinaryFailed | wouldBlock => exact ⟨rfl, rfl⟩
      | writerFailed hidx hmode hfound => simp [leaks, hintr, hidx, hmode, hfound] at hleaks
  | openSignalled k ch mode nonblock phase htask hintr =>
      cases hleaks.symm.trans (leaks_of_signalled htask hintr h)
  | read _ _ _ _ _ _ _ _ _ _ _ hsection | readAgain _ _ _ _ _ _ _ _ _ hsection =>
      exact absurd hret (scull_p_read_ret hsection err)
  | write _ _ _ _ _ _ _ _ _ _ _ hsection | writeAgain _ _ _ _ _ _ _ _ _ hsection =>
      exact absurd hret (scull_p_write_ret hsection err)
  | _ => cases hret

/-- An open that leaks fails, and its share in the counters is not zero. -/
theorem fails_of_leaks (h : u.step a = some (v, e)) (hleaks : u.leaks a = true) :
    (∃ err, e.ret = some (.openFailed err)) ∧
      (a.begins = true ∧ v.counters = (u.counters.1, u.counters.2 + 1) ∨
        a.begins = false ∧ opensAt u.tasks (u.caller a) = true ∧ v.counters = u.counters) := by
  cases a with
  | openFile mode nonblock ch =>
      simp only [leaks, Bool.and_eq_true, Bool.not_eq_true', beq_iff_eq] at hleaks
      obtain ⟨⟨⟨hintr, hidx⟩, hmode⟩, hfound⟩ := hleaks
      cases step_sound h with
      | openInterrupted _ _ _ hintr' => cases hintr.symm.trans hintr'
      | openFailed _ _ _ pipe err _ hsection =>
          cases open_outcome hsection with
          | ordinaryFailed hne => exact absurd hidx hne
          | wouldBlock _ hread => cases hmode.symm.trans hread
          | writerFailed => exact ⟨⟨_, rfl⟩, .inl ⟨rfl, by simp [counters]⟩⟩
      | openWaits _ _ _ pipe _ hsection =>
          cases open_outcome hsection with
          | waits _ hread => cases hmode.symm.trans hread
      | opened _ _ _ pipe wakeOpenq _ hsection =>
          cases open_outcome hsection with
          | ordinary _ hne => exact absurd hidx hne
          | reader _ hread => cases hmode.symm.trans hread
          | writer _ _ _ _ _ _ hfound' => cases hfound.symm.trans hfound'
  | task k ch =>
      simp only [leaks] at hleaks
      split at hleaks
      · rename_i mode nonblock htask
        simp only [Bool.and_eq_true, beq_iff_eq] at hleaks
        simp only [step, htask, taskStep, openWaitStep, Wait.waitEvent, hleaks] at h
        cases h
        exact ⟨⟨_, rfl⟩, .inr ⟨rfl, by simp [opensAt, caller, htask, Task.isOpenWait], rfl⟩⟩
      · rename_i mode nonblock htask
        simp only [step, htask, taskStep, openWaitStep, hleaks] at h
        cases h
        exact ⟨⟨_, rfl⟩, .inr ⟨rfl, by simp [opensAt, caller, htask, Task.isOpenWait], rfl⟩⟩
      · cases hleaks
  | release | read | write | ioctl => cases hleaks

/-- A failed open and what it leaves behind. In every run from module load, every open that fails,
after any number of waits, has a share of zero in the counters, exactly when no open fails with its
count in place. In any case a step of an open that does not succeed keeps the queued bytes and
creates no file, so that nobody will release it. -/
theorem failed_open_iff (idx : Nat) (tun : Tunables) (actions : List PipeAction) :
    ((∀ t a e t',
        Machine.Takes (Machine.ghosted addShare step) (initShares idx tun) actions t a e t' →
        ∀ err, e.ret = some (.openFailed err) → t'.2 (t.1.caller a) = (0, 0)) ↔
      ∀ t a e t',
        Machine.Takes (Machine.ghosted addShare step) (initShares idx tun) actions t a e t' →
        t.1.leaks a = false) ∧
    ∀ t a e t', Machine.Takes step (init idx tun) actions t a e t' → t.inOpen a = true →
      e.ret ≠ some .opened → t'.pipe.queued = t.pipe.queued ∧ t'.files = t.files := by
  constructor
  · refine Machine.takes_iff_guarded (I := WaitersCounted) (S := fun _ _ _ _ => True) ?_ ?_ ?_ ?_
      (fun _ _ _ _ _ => trivial)
    · intro t a e t' hshares _ _ hstep
      obtain ⟨hstep, hghost⟩ := Machine.ghosted_eq_some hstep
      rw [show t' = (t'.1, addShare t.2 t.1 a e t'.1) from Prod.ext rfl hghost]
      exact (step_sound hstep).waiters_counted hshares
    · intro t a e t' _ _ hleaks hstep err hret
      obtain ⟨hstep, hghost⟩ := Machine.ghosted_eq_some hstep
      obtain ⟨hbegins, hcounters⟩ := failed_of_not_leaks hstep hleaks hret
      simp [hghost, addShare, hbegins, hcounters]
    · intro t a e t' hshares _ hstep hzero
      obtain ⟨hstep, hghost⟩ := Machine.ghosted_eq_some hstep
      by_contra hleaks
      have hleaks : t.1.leaks a = true := by simpa using hleaks
      obtain ⟨⟨err, hret⟩, ⟨hbegins, hcounters⟩ | ⟨hbegins, hwaits, hcounters⟩⟩ :=
        fails_of_leaks hstep hleaks
      · have hshare := hzero err hret
        simp only [hghost, addShare, hbegins, hcounters, if_true, Function.update_self,
          Prod.mk.injEq] at hshare
        omega
      · have hshare := hzero err hret
        simp [hghost, addShare, hbegins, hcounters, hshares _ hwaits] at hshare
    · intro k hopen
      cases hopen
  · intro t a e t' htake hopen hret
    have hs := step_sound htake.step_eq
    refine ⟨hs.open_queued hopen ?_, hs.open_files hopen hret⟩
    by_contra hreset
    have hopened := (hs.reset_opened (by simpa using hreset)).1
    exact hret (by rw [hopened])

/-- An open for reading waits for a writer and is ended by a signal: it stays counted. -/
theorem failed_open_stays_counted :
    ∃ t e t', Machine.Takes (Machine.ghosted addShare step) (initShares 3 ⟨4000, 1000, 4⟩)
        [.openFile .rdonly false {}, .task 0 {}, .task 0 { intr := true }] t
        (.task 0 { intr := true }) e t' ∧
      e.ret = some (.openFailed .ERESTARTSYS) ∧ t'.2 (t.1.caller (.task 0 {})) = (1, 0) ∧
      t'.1.pipe.readers = 1 ∧ t'.1.files = [] :=
  ⟨_, _, _, .later rfl (.later rfl (.here [] rfl)), rfl, rfl, rfl, rfl⟩

/-- The bytes accepted by writes and not yet read, after a step: a read takes from the front and a
write appends. A set-up that finds no file open begins a new pipe. -/
def keepUnread (unread : List UInt8) (s : PipeState) (a : PipeAction) (e : Effect)
    (_ : PipeState) : List UInt8 :=
  if s.resets a && s.filesOpen == 0 then [] else unread.drop e.took.length ++ e.put

/-- An open gets through the buffer set-up while a file is open and bytes are queued. -/
def Discards (s : PipeState) (a : PipeAction) : Prop :=
  s.resets a = true ∧ 0 < s.filesOpen ∧ s.pipe.rp ≠ s.pipe.wp

/-- A step that does not discard keeps the unread bytes stored. -/
theorem Step.keeps_unread (h : Step u a e v) (hlen : u.tun.scullPLen < 2 ^ 64)
    (hstores : Stores u.pipe bytes) (hkeeps : ¬ Discards u a) :
    e.took <+: bytes ∧ Stores v.pipe (keepUnread bytes u a e v) := by
  cases hreset : u.resets a with
  | false =>
      simp only [keepUnread, hreset, Bool.false_and, Bool.false_eq_true, if_false]
      exact h.stores hreset hstores
  | true =>
      have hopened := (h.reset_opened hreset).1
      have hempty : keepUnread bytes u a e v = [] := by
        rcases Nat.eq_zero_or_pos u.filesOpen with hnone | hsome
        · simp [keepUnread, hreset, hnone]
        · have hptr : u.pipe.rp = u.pipe.wp := by
            by_contra hne
            exact hkeeps ⟨hreset, hsome, hne⟩
          simp [keepUnread, hopened, hstores.eq_nil_iff.mpr hptr]
      rw [hempty, hopened]
      exact ⟨List.nil_prefix, (h.reset hreset).1.stores hlen⟩

/-- Opens and the bytes on their way. In every run from module load the pipe stores exactly the
bytes accepted by writes and not yet read, and every step of an open of a pipe with an open file
keeps them, exactly when no open gets through the buffer set-up while a file is open and bytes are
queued. -/
theorem open_keeps_bytes_iff (idx : Nat) (tun : Tunables) (hlen : tun.scullPLen < 2 ^ 64)
    (actions : List PipeAction) :
    ((∀ t, Machine.Visits (Machine.ghosted keepUnread step) (init idx tun, []) actions t →
        t.1.pipe.queued = t.2) ∧
      ∀ t a e t',
        Machine.Takes (Machine.ghosted keepUnread step) (init idx tun, []) actions t a e t' →
        e.took <+: t.2 ∧
          (t.1.inOpen a = true → 0 < t.1.filesOpen → t'.1.pipe.queued = t.1.pipe.queued)) ↔
      ∀ t a e t',
        Machine.Takes (Machine.ghosted keepUnread step) (init idx tun, []) actions t a e t' →
        ¬ Discards t.1 a := by
  refine Machine.holds_iff_guarded
    (I := fun t : PipeState × List UInt8 => t.1.tun.scullPLen < 2 ^ 64 ∧ Stores t.1.pipe t.2)
    (S := fun _ _ _ _ => True) ?_ ?_ ?_ ?_ ?_ (fun _ _ _ _ _ => trivial)
  · rintro t a e t' ⟨hlen, hstores⟩ - hkeeps hstep
    obtain ⟨hstep, hghost⟩ := Machine.ghosted_eq_some hstep
    have hs := step_sound hstep
    rw [hghost]
    exact ⟨hs.p_len_lt hlen, (hs.keeps_unread hlen hstores hkeeps).2⟩
  · rintro t ⟨-, hstores⟩
    exact hstores.queued
  · rintro t a e t' ⟨hlen, hstores⟩ - hkeeps hstep
    have hs := step_sound (Machine.ghosted_eq_some hstep).1
    refine ⟨(hs.keeps_unread hlen hstores hkeeps).1, ?_⟩
    intro hopen hfile
    cases hreset : t.1.resets a with
    | false => exact hs.open_queued hopen hreset
    | true =>
        have hptr : t.1.pipe.rp = t.1.pipe.wp := by
          by_contra hne
          exact hkeeps ⟨hreset, hfile, hne⟩
        rw [((hs.reset hreset).1.stores hlen).queued, hstores.queued, hstores.eq_nil_iff.mpr hptr]
  · rintro t a e t' ⟨hlen, hstores⟩ - hstep - ⟨-, hqueued⟩ ⟨hreset, hfile, hne⟩
    have hs := step_sound (Machine.ghosted_eq_some hstep).1
    have hopen : t.1.inOpen a = true := by
      cases a with
      | openFile => rfl
      | _ => cases hreset
    have hsame := hqueued hopen hfile
    rw [((hs.reset hreset).1.stores hlen).queued, hstores.queued] at hsame
    exact hne (hstores.eq_nil_iff.mp hsame.symm)
  · exact ⟨hlen, .void rfl rfl rfl rfl rfl⟩

/-- A writer joins a reader before the first byte is written. -/
def joinEmpty : List PipeAction :=
  [.openFile .rdonly false {}, .openFile .wronly false {}, .write 1 [7, 8] {}, .read 0 1 {}]

theorem open_keeps_bytes_joined_empty :
    ∃ t, Machine.Visits (Machine.ghosted keepUnread step) (init 0 ⟨4000, 1000, 4⟩, []) joinEmpty t ∧
      t.2 = [8] ∧ t.1.pipe.queued = t.2 := by
  have hguard : ∀ t a e t', Machine.Takes (Machine.ghosted keepUnread step)
      (init 0 ⟨4000, 1000, 4⟩, []) joinEmpty t a e t' → ¬ Discards t.1 a := by
    refine Machine.forall_takes_cons rfl (fun h => absurd h.2.1 (by decide)) ?_
    refine Machine.forall_takes_cons rfl (fun h => h.2.2 rfl) ?_
    refine Machine.forall_takes_cons rfl (fun h => by cases h.1) ?_
    exact Machine.forall_takes_cons rfl (fun h => by cases h.1) Machine.forall_takes_nil
  have hkeeps := ((open_keeps_bytes_iff 0 ⟨4000, 1000, 4⟩ (by decide) joinEmpty).mpr hguard).1
  refine ⟨_, .later rfl (.later rfl (.later rfl (.later rfl (.here _ [])))), rfl, ?_⟩
  exact hkeeps _ (.later rfl (.later rfl (.later rfl (.later rfl (.here _ [])))))

/-- A reader that joins after a write finds the pipe empty, and so does the one that was there. -/
theorem open_discards_bytes :
    ∃ t t', Machine.Takes step (init 0 ⟨4000, 1000, 4⟩)
        [.openFile .rdwr false {}, .write 0 [7] {}, .openFile .rdonly false {}] t
        (.openFile .rdonly false {}) { ret := some .opened } t' ∧
      0 < t.filesOpen ∧ t.pipe.queued = [7] ∧ t'.pipe.queued = [] :=
  ⟨_, _, .later rfl (.later rfl (.here [] rfl)), by decide, rfl, rfl⟩

end PipeState

end Ldd3.Scull
