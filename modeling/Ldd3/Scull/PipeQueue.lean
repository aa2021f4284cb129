import Ldd3.Fifo
import Ldd3.Scull.PipeMachine

/-!
# The pipe as a bounded byte queue

Between two opens the pipe is a circular buffer with one free byte: `Represents` relates its
pointers to a `Ring`, and each locked section of a read or a write either leaves the ring as it
is, takes bytes from its front or appends bytes to its end. Every run of reads and writes is
therefore accepted by the bounded queue of `Ldd3.Fifo` (`transfers_simulate`), and
`scull_pipe_refines_fifo` spells out what this means for the clients.
-/

namespace Ldd3.Scull

/-- The bytes stored circularly from `rp` up to `wp`. -/
def ScullPipe.queued (dev : ScullPipe) : List UInt8 :=
  if dev.rp ≤ dev.wp then slice dev.mem dev.rp (dev.wp - dev.rp)
  else slice dev.mem dev.rp (dev.endp - dev.rp) ++ slice dev.mem 0 dev.wp

/-- A pipe just after an open: the buffer is at least as long as `buf_len`, and both pointers
are at its start. -/
structure JustOpened (dev : ScullPipe) : Prop where
  buf : ∃ block, dev.buf = some block ∧ dev.bufLen ≤ block.size
  bufLen : 1 ≤ dev.bufLen
  endp : dev.endp = dev.bufLen
  rp : dev.rp = 0
  wp : dev.wp = 0

/-- The pointers of the pipe are the indices of the ring, whatever its length. -/
structure RingOf (dev : ScullPipe) (r : Ring UInt8) : Prop where
  mem : dev.mem = r.cells
  bufLen : dev.bufLen = r.len
  endp : dev.endp = r.len
  rp : dev.rp = r.rd
  wp : dev.wp = r.wr

/-- The pointers of the pipe are the indices of a ring that is no longer than a block. -/
structure Represents (dev : ScullPipe) (r : Ring UInt8) : Prop extends RingOf dev r where
  len_lt : r.len < 2 ^ 63

variable {dev dev' : ScullPipe} {r : Ring UInt8}

/-- The buffer set-up of an open leaves the pipe so, with a length of at least one byte and no old
block that is shorter. -/
theorem SetUp.just_opened {pLen : Nat} (h : SetUp dev pLen dev') (hpos : 1 ≤ pLen)
    (hfits : ∀ block, dev.buf = some block → pLen ≤ block.size) : JustOpened dev' := by
  obtain ⟨block, hblock, horigin⟩ := h.block
  have hsize : pLen ≤ block.size := by
    rcases horigin with hold | ⟨-, hnew⟩
    · exact hfits block hold
    · exact Nat.le_of_eq hnew.symm
  refine ⟨⟨block, hblock, ?_⟩, ?_, h.endp.trans h.bufLen.symm, h.rp, h.wp⟩
  · rw [h.bufLen]
    exact hsize
  · rw [h.bufLen]
    exact hpos

/-- A pipe just after an open is an empty ring. -/
theorem JustOpened.represents (h : JustOpened dev) :
    ∃ r, Represents dev r ∧ r.items = [] := by
  obtain ⟨block, -, hsize⟩ := h.buf
  have hlt := block.size_lt
  have hpos := h.bufLen
  refine ⟨⟨dev.mem, dev.bufLen, 0, 0, hpos, hpos⟩, ?_, ?_⟩
  · exact ⟨⟨rfl, rfl, h.endp, h.rp, h.wp⟩, by show dev.bufLen < _; omega⟩
  · simp [Ring.items, Ring.size]

/-- The queued bytes of the pipe are the contents of the ring. -/
theorem RingOf.queued (h : RingOf dev r) : dev.queued = r.items := by
  have hrd := r.rd_lt
  have hwr := r.wr_lt
  simp only [ScullPipe.queued, h.mem, h.rp, h.wp, h.endp]
  apply List.ext_getElem
  · simp only [Ring.length_items, Ring.size]
    split <;> simp
    omega
  · intro i h₁ h₂
    simp only [Ring.length_items] at h₂
    simp only [Ring.items, List.getElem_map, List.getElem_range, Ring.index]
    by_cases hwrap : r.rd ≤ r.wr
    · simp only [Ring.size, if_pos hwrap] at h₂
      simp only [if_pos hwrap, slice, List.getElem_map, List.getElem_range]
      rw [if_pos (by omega)]
    · simp only [if_neg hwrap, slice, List.getElem_append, List.getElem_map, List.getElem_range,
        List.length_map, List.length_range]
      split
      · rw [if_pos (by omega)]
      · rw [if_neg (by omega)]
        congr 1
        omega

/-- As long as `wp` has not wrapped, `spacefree` counts the free bytes but one. -/
theorem RingOf.spacefree_ahead (h : RingOf dev r) (hlen : r.len < 2 ^ 64)
    (hwrap : r.rd ≤ r.wr) : spacefree dev + r.size + 1 = r.len := by
  have hrd := r.rd_lt
  have hwr := r.wr_lt
  simp only [spacefree, h.bufLen, h.rp, h.wp, Ring.size, if_pos hwrap]
  by_cases heq : r.rd = r.wr
  · rw [if_pos heq, size_sub_of_le (by omega) (by omega)]
    omega
  · have hmod : sizeSub (r.rd + r.len) r.wr % r.len = r.rd + r.len - r.wr := by
      rw [size_sub_of_sub_lt (by omega) (by omega), Nat.mod_eq_of_lt (by omega)]
    rw [if_neg heq, hmod, size_sub_of_le (by omega) (by omega)]
    omega

/-- Once `wp` has wrapped, `spacefree` counts the free bytes but one if the buffer is no longer than
half of the address space. -/
theorem RingOf.spacefree_round (h : RingOf dev r) (hlen : r.len ≤ 2 ^ 63)
    (hwrap : r.wr < r.rd) : spacefree dev + r.size + 1 = r.len := by
  have hrd := r.rd_lt
  have hfree : spacefree dev = r.rd - r.wr - 1 := by
    rw [← h.rp, ← h.wp]
    exact spacefree_wrapped (by rw [h.rp, h.wp]; exact hwrap) (by rw [h.rp, h.bufLen]; exact hrd)
      (by rw [h.bufLen]; exact hlen)
  rw [hfree, Ring.size, if_neg (by omega)]
  omega

/-- A read copies what is queued before the end of the buffer, up to its count. -/
theorem RingOf.read_count_eq (h : RingOf dev r) (hne : dev.rp ≠ dev.wp) (count : Nat) :
    readCount dev count = min count (min r.size (r.len - r.rd)) := by
  have hrd := r.rd_lt
  have hwr := r.wr_lt
  rw [h.rp, h.wp] at hne
  simp only [Scull.readCount, h.rp, h.wp, h.endp, Ring.size]
  split <;> split <;> omega

/-- A write copies no more than it is asked to. -/
theorem write_count_le (dev : ScullPipe) (count : Nat) : writeCount dev count ≤ count := by
  simp only [writeCount]
  split <;> omega

/-- A write copies what fits before the end of the buffer, and leaves a byte free. -/
theorem RingOf.write_count_fits (h : RingOf dev r) (hlen : r.len < 2 ^ 64) (count : Nat) :
    r.size + writeCount dev count < r.len ∧ r.wr + writeCount dev count ≤ r.len := by
  have hfree := h.spacefree_ahead hlen
  have hrd := r.rd_lt
  have hwr := r.wr_lt
  simp only [writeCount, h.rp, h.wp, h.endp]
  simp only [Ring.size] at hfree ⊢
  split
  · rename_i hge
    have hfree := hfree hge
    rw [if_pos hge] at hfree
    omega
  · omega

/-- `spacefree` counts the free bytes but one. -/
theorem Represents.spacefree (h : Represents dev r) :
    spacefree dev + r.size + 1 = r.len := by
  have hlen := h.len_lt
  rcases Nat.lt_or_ge r.wr r.rd with hwrap | hwrap
  · exact h.toRingOf.spacefree_round (by omega) hwrap
  · exact h.toRingOf.spacefree_ahead (by omega) hwrap

/-- A write copies what fits before the end of the buffer and leaves a byte free, up to its
count. -/
theorem Represents.write_count_eq (h : Represents dev r) (count : Nat) :
    writeCount dev count = min count (min (r.len - 1 - r.size) (r.len - r.wr)) := by
  have hfree := h.spacefree
  have hrd := r.rd_lt
  have hwr := r.wr_lt
  simp only [Scull.writeCount, h.rp, h.wp, h.endp]
  simp only [Ring.size] at hfree ⊢
  split <;> split at hfree <;> omega

/-- A step handed bytes to the user copy and did not fail: the locked section of a successful
read or write. -/
def Effect.Transfers (e : Effect) : Prop :=
  e.copy.isSome = true ∧ e.ret = none

section Sections

variable {nonblock : Bool} {file count : Nat} {data : List UInt8} {ch : Choice} {task : Task}
  {e : Effect}

/-- The locked section of a read keeps the ring, or takes from it exactly the bytes it copies. -/
theorem RingOf.read_spec (hring : RingOf dev r)
    (h : scullPRead dev nonblock file count ch = (dev', task, e)) :
    (dev' = dev ∧ ¬ e.Transfers ∧ e.took = [] ∧ e.put = []) ∨
      ∃ n hn, n = min count (min r.size (r.len - r.rd)) ∧ r.size ≠ 0 ∧
        RingOf dev' (r.pop n hn) ∧ task = .readWake file n ∧
        e.Transfers ∧ e.took = slice r.cells r.rd n ∧ e.put = [] := by
  unfold scullPRead at h
  split at h
  · left
    split at h <;> cases h <;> exact ⟨rfl, by simp [Effect.Transfers], rfl, rfl⟩
  · rename_i hne
    split at h
    · left
      cases h
      exact ⟨rfl, by simp [Effect.Transfers], rfl, rfl⟩
    · right
      have hcount := hring.read_count_eq hne count
      have hrd := r.rd_lt
      have hsize : r.size ≠ 0 := by
        rw [Ne, Ring.size_eq_zero_iff, ← hring.rp, ← hring.wp]
        exact hne
      cases h
      rw [hcount]
      refine ⟨_, ⟨by omega, by omega⟩, rfl, hsize, ?_, rfl, ?_, ?_, rfl⟩
      · refine ⟨hring.mem, hring.bufLen, hring.endp, ?_, hring.wp⟩
        simp only [Ring.pop, Ring.advance, hring.rp, hring.endp]
      · exact ⟨rfl, rfl⟩
      · simp only [hring.mem, hring.rp]

/-- The locked section of a write keeps the queued bytes, or appends exactly the bytes it
copies. -/
theorem RingOf.write_spec (hring : RingOf dev r) (hlen : r.len < 2 ^ 64)
    (h : scullPWrite dev nonblock file data ch = (dev', task, e)) :
    (∃ cells, RingOf dev' (r.scribble cells) ∧ (r.scribble cells).items = r.items ∧
        ¬ e.Transfers ∧ e.took = [] ∧ e.put = []) ∨
      ∃ n hn, n = writeCount dev data.length ∧ spacefree dev ≠ 0 ∧
        RingOf dev' (r.push (data.take n) hn) ∧ task = .writeWake file n ∧
        e.Transfers ∧ e.took = [] ∧ e.put = data.take n := by
  have hfits := hring.write_count_fits hlen data.length
  unfold scullPWrite at h
  split at h
  · left
    refine ⟨r.cells, ?_⟩
    split at h <;> cases h <;> exact ⟨hring, rfl, by simp [Effect.Transfers], rfl, rfl⟩
  · rename_i hspace
    split at h
    · left
      cases h
      refine ⟨spoil dev.mem dev.wp (writeCount dev data.length) ch.spoilt, ?_, ?_,
        by simp [Effect.Transfers], rfl, rfl⟩
      · exact ⟨rfl, hring.bufLen, hring.endp, hring.rp, hring.wp⟩
      · -- the spoilt bytes lie in the free part of the buffer
        refine r.items_scribble _ (writeCount dev data.length) hfits ?_
        intro i hi
        rw [spoil, hring.wp, hring.mem, if_neg (by omega)]
    · right
      cases h
      have htake : (data.take (writeCount dev data.length)).length =
          writeCount dev data.length := by
        rw [List.length_take, Nat.min_eq_left (write_count_le dev data.length)]
      refine ⟨_, by rw [htake]; exact hfits, rfl, hspace, ?_, rfl, ⟨rfl, rfl⟩, rfl, rfl⟩
      refine ⟨?_, hring.bufLen, hring.endp, hring.rp, ?_⟩
      · simp only [Ring.push, hring.mem, hring.wp]
      · simp only [Ring.push, Ring.advance, hring.wp, hring.endp, htake]

/-- The locked section of a read of a buffer that fits in memory. -/
theorem scull_p_read_spec (hrep : Represents dev r)
    (h : scullPRead dev nonblock file count ch = (dev', task, e)) :
    (dev' = dev ∧ ¬ e.Transfers ∧ e.took = [] ∧ e.put = []) ∨
      ∃ n hn, n = min count (min r.size (r.len - r.rd)) ∧ r.size ≠ 0 ∧
        Represents dev' (r.pop n hn) ∧ task = .readWake file n ∧
        e.Transfers ∧ e.took = slice r.cells r.rd n ∧ e.put = [] := by
  rcases hrep.toRingOf.read_spec h with hsame | ⟨n, hn, hcount, hsize, hring, hrest⟩
  · exact .inl hsame
  · exact .inr ⟨n, hn, hcount, hsize, ⟨hring, hrep.len_lt⟩, hrest⟩

/-- The locked section of a write to a buffer that fits in memory. -/
theorem scull_p_write_spec (hrep : Represents dev r)
    (h : scullPWrite dev nonblock file data ch = (dev', task, e)) :
    (∃ cells, Represents dev' (r.scribble cells) ∧ (r.scribble cells).items = r.items ∧
        ¬ e.Transfers ∧ e.took = [] ∧ e.put = []) ∨
      ∃ n hn, n = min data.length (min (r.len - 1 - r.size) (r.len - r.wr)) ∧
        r.size + 1 < r.len ∧ Represents dev' (r.push (data.take n) hn) ∧
        task = .writeWake file n ∧ e.Transfers ∧ e.took = [] ∧ e.put = data.take n := by
  have hlen := hrep.len_lt
  have hfree := hrep.spacefree
  rcases hrep.toRingOf.write_spec (by omega) h with ⟨cells, hring, hrest⟩ |
      ⟨n, hn, hcount, hspace, hring, hrest⟩
  · exact .inl ⟨cells, ⟨hring, hlen⟩, hrest⟩
  · exact .inr ⟨n, hn, hcount.trans (hrep.write_count_eq data.length), by omega,
      ⟨hring, hlen⟩, hrest⟩

end Sections

/-- An action other than the start of an open or a release. -/
def PipeAction.keepsFiles : PipeAction → Bool
  | openFile _ _ _ | release _ _ => false
  | _ => true

namespace PipeState

/-- The count of the read whose locked section the action executes. -/
def readRequest (s : PipeState) : PipeAction → Option Nat
  | .read _ count _ => some count
  | .task t _ =>
      match s.tasks[t]? with
      | some (.readWait _ count .relock) => some count
      | _ => none
  | _ => none

/-- The data of the write whose locked section the action executes. -/
def writeRequest (s : PipeState) : PipeAction → Option (List UInt8)
  | .write _ data _ => some data
  | .task t _ =>
      match s.tasks[t]? with
      | some (.writeWait _ data .relock) => some data
      | _ => none
  | _ => none

variable {u v : PipeState} {a : PipeAction} {e : Effect}

/-- Without opens and releases, a step executes a locked section of a read or a write, or it
leaves the pipe alone. -/
theorem Step.transfer_cases (h : Step u a e v) (ha : a.keepsFiles = true) :
    (v.pipe = u.pipe ∧ ¬ e.Transfers ∧ e.took = [] ∧ e.put = []) ∨
      (∃ nonblock file count ch task, u.readRequest a = some count ∧ u.writeRequest a = none ∧
        task ∈ v.tasks ∧ scullPRead u.pipe nonblock file count ch = (v.pipe, task, e)) ∨
      ∃ nonblock file data ch task, u.writeRequest a = some data ∧ u.readRequest a = none ∧
        task ∈ v.tasks ∧ scullPWrite u.pipe nonblock file data ch = (v.pipe, task, e) := by
  cases h with
  | openInterrupted | openFailed | openWaits | opened => cases ha
  | releaseInterrupted | released => cases ha
  | readInterrupted | endOfFile | writeInterrupted | ioctl =>
      exact .inl ⟨rfl, by simp [Effect.Transfers], rfl, rfl⟩
  | readWait | readSignalled | readWake | writeWait | writeSignalled | writeWake =>
      exact .inl ⟨rfl, by simp [Effect.Transfers], rfl, rfl⟩
  | openWait | openSignalled | openedAgain =>
      exact .inl ⟨rfl, by simp [Effect.Transfers], rfl, rfl⟩
  | read file f count ch pipe task e _ _ _ _ hsection =>
      exact .inr (.inl ⟨_, _, _, _, task, rfl, rfl, by simp [addTask], hsection⟩)
  | write file f data ch pipe task e _ _ _ _ hsection =>
      exact .inr (.inr ⟨_, _, _, _, task, rfl, rfl, by simp [addTask], hsection⟩)
  | readAgain t ch file count pipe task e htask _ hsection =>
      have hlt : t < u.tasks.length := (List.getElem?_eq_some_iff.mp htask).1
      refine .inr (.inl ⟨_, _, _, _, task, ?_, ?_, ?_, hsection⟩)
      · simp [readRequest, htask]
      · simp [writeRequest, htask]
      · exact List.mem_set hlt task
  | writeAgain t ch file data pipe task e htask _ hsection =>
      have hlt : t < u.tasks.length := (List.getElem?_eq_some_iff.mp htask).1
      refine .inr (.inr ⟨_, _, _, _, task, ?_, ?_, ?_, hsection⟩)
      · simp [writeRequest, htask]
      · simp [readRequest, htask]
      · exact List.mem_set hlt task

/-- What the clients see of one step. A step that is not a successful locked section leaves the
queued bytes and both pointers alone. A successful read takes the oldest bytes, as many as it
asks for and as lie before the end of the buffer; a successful write appends the first bytes of
its data, as many as fit before the end of the buffer with one byte left free. -/
structure TransferSpec (u : PipeState) (a : PipeAction) (e : Effect) (v : PipeState) : Prop where
  unchanged : ¬ e.Transfers →
    v.pipe.queued = u.pipe.queued ∧ v.pipe.rp = u.pipe.rp ∧ v.pipe.wp = u.pipe.wp ∧
      e.took = [] ∧ e.put = []
  request : e.Transfers → (u.readRequest a).isSome = true ∨ (u.writeRequest a).isSome = true
  read : ∀ count n, u.readRequest a = some count → e.Transfers →
    n = min count (min u.pipe.queued.length (u.pipe.endp - u.pipe.rp)) →
    e.took = u.pipe.queued.take n ∧ e.put = [] ∧ v.pipe.queued = u.pipe.queued.drop n ∧
      (1 ≤ count → 1 ≤ n) ∧ ∃ file, Task.readWake file n ∈ v.tasks
  write : ∀ data n, u.writeRequest a = some data → e.Transfers →
    n = min data.length
      (min (u.pipe.bufLen - 1 - u.pipe.queued.length) (u.pipe.endp - u.pipe.wp)) →
    e.put = data.take n ∧ e.took = [] ∧ v.pipe.queued = u.pipe.queued ++ data.take n ∧
      (1 ≤ data.length → 1 ≤ n ∧ v.pipe.rp ≠ v.pipe.wp) ∧ ∃ file, Task.writeWake file n ∈ v.tasks

/-- A step that transfers nothing only has to leave the queue alone. -/
theorem TransferSpec.of_quiet (hquiet : ¬ e.Transfers)
    (hsame : v.pipe.queued = u.pipe.queued ∧ v.pipe.rp = u.pipe.rp ∧ v.pipe.wp = u.pipe.wp ∧
      e.took = [] ∧ e.put = []) : TransferSpec u a e v :=
  ⟨fun _ => hsame, fun he => absurd he hquiet, fun _ _ _ he => absurd he hquiet,
    fun _ _ _ he => absurd he hquiet⟩

/-- One step without opens and releases: the pipe stays a ring of the same length, and the step
takes from the front of its contents and appends to their end. -/
theorem Step.transfer (h : Step u a e v) (ha : a.keepsFiles = true) {r : Ring UInt8}
    (hrep : Represents u.pipe r) :
    ∃ r', Represents v.pipe r' ∧ r'.len = r.len ∧ e.took <+: r.items ∧
      e.took ++ r'.items = r.items ++ e.put ∧ TransferSpec u a e v := by
  have hrd := r.rd_lt
  have hwr := r.wr_lt
  have hqueued := hrep.queued
  have hlen : u.pipe.queued.length = r.size := by rw [hqueued, Ring.length_items]
  rcases h.transfer_cases ha with ⟨hpipe, hquiet, htook, hput⟩ |
      ⟨nonblock, file, count, ch, task, hread, hwrite, htask, hsection⟩ |
      ⟨nonblock, file, data, ch, task, hwrite, hread, htask, hsection⟩
  · refine ⟨r, by rw [hpipe]; exact hrep, rfl, by simp [htook], by simp [htook, hput], ?_⟩
    exact .of_quiet hquiet (by simp [hpipe, htook, hput])
  · rcases scull_p_read_spec hrep hsection with ⟨hpipe, hquiet, htook, hput⟩ |
        ⟨n, hn, hcount, hsize, hrep', rfl, htrans, htook, hput⟩
    · refine ⟨r, by rw [hpipe]; exact hrep, rfl, by simp [htook], by simp [htook, hput], ?_⟩
      exact .of_quiet hquiet (by simp [hpipe, htook, hput])
    · have hitems := r.items_pop n hn
      have htake : r.items.take n = slice r.cells r.rd n := by
        rw [hitems, List.take_left' (by simp)]
      have hdrop : r.items.drop n = (r.pop n hn).items := by
        rw [hitems, List.drop_left' (by simp)]
      refine ⟨_, hrep', rfl, ?_, by rw [htook, hput, ← hitems, List.append_nil], ?_⟩
      · rw [htook, ← htake]
        exact List.take_prefix _ _
      refine ⟨fun he => absurd htrans he, fun _ => .inl (by simp [hread]), ?_, ?_⟩
      · intro count' n' hcount' _ hn'
        have heq : count' = count := Option.some.inj (hcount'.symm.trans hread)
        have heq' : n' = n := by rw [hn', hcount, heq, hlen, hrep.endp, hrep.rp]
        subst heq heq'
        refine ⟨?_, hput, ?_, by omega, file, htask⟩
        · rw [htook, hqueued, htake]
        · rw [hrep'.queued, hqueued, hdrop]
      · intro data' n' hdata'
        simp [hwrite] at hdata'
  · rcases scull_p_write_spec hrep hsection with ⟨cells, hrep', hitems, hquiet, htook, hput⟩ |
        ⟨n, hn, hcount, hsize, hrep', rfl, htrans, htook, hput⟩
    · refine ⟨_, hrep', rfl, by simp [htook], by simp [htook, hput, hitems], ?_⟩
      have hsame : v.pipe.queued = u.pipe.queued := by rw [hrep'.queued, hitems, hqueued]
      exact .of_quiet hquiet
        ⟨hsame, hrep'.rp.trans hrep.rp.symm, hrep'.wp.trans hrep.wp.symm, htook, hput⟩
    · have hitems := r.items_push _ hn
      refine ⟨_, hrep', rfl, by simp [htook], by rw [htook, hput, hitems, List.nil_append], ?_⟩
      refine ⟨fun he => absurd htrans he, fun _ => .inr (by simp [hwrite]), ?_, ?_⟩
      · intro count' n' hcount'
        simp [hread] at hcount'
      · intro data' n' hdata' _ hn'
        have heq : data' = data := Option.some.inj (hdata'.symm.trans hwrite)
        have heq' : n' = n := by rw [hn', hcount, heq, hlen, hrep.endp, hrep.wp, hrep.bufLen]
        subst heq heq'
        refine ⟨hput, htook, ?_, ?_, file, htask⟩
        · rw [hrep'.queued, hitems, hqueued]
        · intro hpos
          have hone : 1 ≤ n' := by omega
          refine ⟨hone, ?_⟩
          -- the ring holds the bytes just written, so its indices differ
          have hsize' := r.size_push _ hn
          rw [List.length_take] at hsize'
          rw [hrep'.rp, hrep'.wp]
          intro heq
          rw [(Ring.size_eq_zero_iff _).mpr heq] at hsize'
          omega

/-- The pipe is a ring of length `len` with the given contents. -/
def Queues (len : Nat) (s : PipeState) (queue : List UInt8) : Prop :=
  ∃ r, Represents s.pipe r ∧ r.len = len ∧ r.items = queue

/-- Every run of reads and writes is a run of the bounded queue: the queue accepts what the
clients take out and put in, and its contents are the bytes in the buffer. -/
theorem transfers_simulate {s final : PipeState} {actions : List PipeAction} {es : List Effect}
    {len : Nat} {queue : List UInt8} (hqueue : Queues len s queue)
    (hkeep : ∀ a ∈ actions, a.keepsFiles = true)
    (hrun : Machine.run step s actions = some (final, es)) :
    ∃ queue', es.foldlM (fun q e => Fifo.step (len - 1) q e.took e.put) queue = some queue' ∧
      Queues len final queue' := by
  refine Machine.run_simulates ?_ hqueue hrun
  rintro t a e t' _ htake ⟨r, hrep, rfl, rfl⟩
  obtain ⟨r', hrep', hlen, htook, happend, -⟩ :=
    (step_sound htake.step_eq).transfer (hkeep a htake.action_mem) hrep
  have hroom := r'.size_lt
  refine ⟨r'.items, Fifo.step_of_append happend htook ?_, r', hrep', hlen, rfl⟩
  rw [Ring.length_items]
  omega

/-- In every state of a run of reads and writes the pipe is a ring of the same length. -/
theorem visits_queues {s t : PipeState} {actions : List PipeAction} {len : Nat}
    (hqueue : ∃ queue, Queues len s queue) (hkeep : ∀ a ∈ actions, a.keepsFiles = true)
    (hvisit : Machine.Visits step s actions t) : ∃ queue, Queues len t queue := by
  refine hvisit.invariant_of_guard (I := fun t => ∃ queue, Queues len t queue)
    (G := fun _ a _ _ => a.keepsFiles = true) ?_ hqueue
    (fun t a e t' htake => hkeep a htake.action_mem)
  rintro t a e t' ⟨_, r, hrep, hlen, _⟩ ha hstep
  obtain ⟨r', hrep', hlen', -⟩ := (step_sound hstep).transfer ha hrep
  exact ⟨_, r', hrep', hlen'.trans hlen, rfl⟩

/-- The scull pipe is a bounded first-in first-out queue of bytes. From a pipe just after an
open, for every interleaving of reads and writes by any clients: the bytes returned by the
successful reads, in the order of their critical sections, followed by the bytes now stored,
are the bytes accepted by the successful writes; the pointers stay inside the buffer, at most
`buf_len - 1` bytes are queued, and every step meets `TransferSpec`. -/
theorem scull_pipe_refines_fifo (s : PipeState) (hopen : JustOpened s.pipe)
    (actions : List PipeAction) (hkeep : ∀ a ∈ actions, a.keepsFiles = true)
    (final : PipeState) (es : List Effect)
    (hrun : Machine.run step s actions = some (final, es)) :
    es.flatMap Effect.took ++ final.pipe.queued = es.flatMap Effect.put ∧
      final.pipe.bufLen = s.pipe.bufLen ∧ final.pipe.endp = s.pipe.bufLen ∧
      final.pipe.rp < s.pipe.bufLen ∧ final.pipe.wp < s.pipe.bufLen ∧
      final.pipe.queued.length ≤ s.pipe.bufLen - 1 ∧
      ∀ u a e v, Machine.Takes step s actions u a e v → TransferSpec u a e v := by
  obtain ⟨r, hrep, hempty⟩ := hopen.represents
  have hqueue : Queues s.pipe.bufLen s [] := ⟨r, hrep, hrep.bufLen.symm, hempty⟩
  obtain ⟨queue, hfold, r', hrep', hlen', rfl⟩ := transfers_simulate hqueue hkeep hrun
  have hlog := Fifo.taken_append_queue hfold
  have hrd := r'.rd_lt
  have hwr := r'.wr_lt
  have hsize := r'.size_lt
  refine ⟨?_, hrep'.bufLen.trans hlen', hrep'.endp.trans hlen', ?_, ?_, ?_, ?_⟩
  · rw [hrep'.queued, hlog, List.nil_append]
  · rw [hrep'.rp, ← hlen']
    exact hrd
  · rw [hrep'.wp, ← hlen']
    exact hwr
  · rw [hrep'.queued, Ring.length_items, ← hlen']
    omega
  · intro u a e v htake
    obtain ⟨_, r₁, hrep₁, -, -⟩ := visits_queues ⟨_, hqueue⟩ hkeep htake.source
    obtain ⟨_, -, -, -, -, hspec⟩ :=
      (step_sound htake.step_eq).transfer (hkeep a htake.action_mem) hrep₁
    exact hspec

/-- A pipe of four bytes just after an open, with a reader and a writer. -/
def fourBytes : PipeState :=
  ⟨⟨0, some ⟨4, by decide⟩, fun _ => 0, 4, 4, 0, 0, 1, 1⟩,
    [⟨.rdonly, false, true⟩, ⟨.wronly, false, true⟩], [], ⟨4000, 1000, 4⟩⟩

/-- Short writes and reads that go round the end of the four bytes. -/
def roundTheEnd : List PipeAction :=
  [.write 1 [1, 2, 3, 4, 5] {}, .task 0 {}, .read 0 2 {}, .task 1 {}, .write 1 [6, 8, 9] {},
    .write 1 [7, 8] {}, .read 0 5 { fault := true }, .read 0 5 {}]

theorem scull_pipe_refines_fifo_round_the_end :
    ∃ final es, Machine.run step fourBytes roundTheEnd = some (final, es) ∧
      es.flatMap Effect.took = [1, 2, 3, 6] ∧ final.pipe.queued = [7] ∧
      es.flatMap Effect.took ++ final.pipe.queued = es.flatMap Effect.put := by
  refine ⟨_, _, rfl, rfl, rfl, ?_⟩
  exact (scull_pipe_refines_fifo fourBytes ⟨⟨_, rfl, by decide⟩, by decide, rfl, rfl, rfl⟩
    roundTheEnd (by decide) _ _ rfl).1

end PipeState

end Ldd3.Scull
