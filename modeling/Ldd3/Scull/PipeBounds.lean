import Ldd3.Scull.PipeHandles

/-!
# Buffer bounds of the pipe

`scull_p_open` sets `buf_len` from `scull_p_len` on every open, but allocates only when there is
no buffer. `BufFits` is the bound that the copies rely on. `pipe_bounds_iff` says exactly which
runs keep it: those in which no open that finds a buffer runs while `scull_p_len` exceeds the
size of that buffer. It is about the runs in which, on the proper FIFO, no read or write passes its
test without a buffer; on the ordinary pipes the handle accounting excludes that.
`pipe_bounds_broken` is a run that breaks the bound.
-/

namespace Ldd3.Scull

namespace PipeState

/-- The length in use does not exceed the number of bytes the buffer was allocated with. -/
def BufFits (s : PipeState) : Prop :=
  s.pipe.endp = s.pipe.bufLen ∧ ∀ block, s.pipe.buf = some block → s.pipe.bufLen ≤ block.size

/-- The bytes a user copy touches are bytes of an allocated buffer. -/
def CopyFits (s : PipeState) (e : Effect) : Prop :=
  ∀ off n, e.copy = some (off, n) → 0 < n →
    ∃ block, s.pipe.buf = some block ∧ off + n ≤ block.size

/-- The pointers lie inside the length in use, which is the length of a block. -/
structure PointersFit (dev : ScullPipe) : Prop where
  endp : dev.endp = dev.bufLen
  rp : dev.rp < dev.bufLen ∨ dev.rp = 0
  wp : dev.wp < dev.bufLen ∨ dev.wp = 0
  len : dev.bufLen < 2 ^ 63

end PipeState

open PipeState

variable {dev dev' : ScullPipe} {task : Task} {e : Effect} {ch : Choice}

/-- A pointer that moves to the end at most, and from the end to the start. -/
theorem wrapped_fits {off n len : Nat} (h : off + n ≤ len) :
    (if off + n = len then 0 else off + n) < len ∨ (if off + n = len then 0 else off + n) = 0 := by
  split <;> omega

/-- A read takes bytes below `buf_len`. -/
theorem read_count_bound (hptr : PointersFit dev) (count : Nat) :
    dev.rp + readCount dev count ≤ dev.bufLen := by
  obtain ⟨hend, hrp, hwp, -⟩ := hptr
  unfold readCount
  split <;> omega

/-- A write stores bytes below `buf_len`. -/
theorem write_count_bound (hptr : PointersFit dev) (count : Nat) :
    dev.wp + writeCount dev count ≤ dev.bufLen := by
  obtain ⟨hend, hrp, hwp, -⟩ := hptr
  simp only [writeCount]
  split <;> omega

/-- The locked section of a read keeps the buffer and copies below `buf_len`. -/
theorem scull_p_read_bounds {nonblock : Bool} {file count : Nat} (hptr : PointersFit dev)
    (h : scullPRead dev nonblock file count ch = (dev', task, e)) :
    PointersFit dev' ∧ dev'.buf = dev.buf ∧ dev'.bufLen = dev.bufLen ∧
      ∀ off n, e.copy = some (off, n) → off + n ≤ dev.bufLen ∧ dev.rp ≠ dev.wp := by
  have hcount := read_count_bound hptr count
  obtain ⟨hend, hrp, hwp, hlen⟩ := hptr
  unfold scullPRead at h
  split at h
  · split at h <;> cases h <;> exact ⟨⟨hend, hrp, hwp, hlen⟩, rfl, rfl, by simp⟩
  · rename_i hne
    split at h <;> cases h
    · refine ⟨⟨hend, hrp, hwp, hlen⟩, rfl, rfl, ?_⟩
      rintro off n ⟨⟩
      exact ⟨hcount, hne⟩
    · refine ⟨⟨hend, hend ▸ wrapped_fits (hend ▸ hcount), hwp, hlen⟩, rfl, rfl, ?_⟩
      rintro off n ⟨⟩
      exact ⟨hcount, hne⟩

/-- The locked section of a write keeps the buffer and copies below `buf_len`. -/
theorem scull_p_write_bounds {nonblock : Bool} {file : Nat} {data : List UInt8}
    (hptr : PointersFit dev) (h : scullPWrite dev nonblock file data ch = (dev', task, e)) :
    PointersFit dev' ∧ dev'.buf = dev.buf ∧ dev'.bufLen = dev.bufLen ∧
      ∀ off n, e.copy = some (off, n) → off + n ≤ dev.bufLen ∧ spacefree dev ≠ 0 := by
  have hcount := write_count_bound hptr data.length
  obtain ⟨hend, hrp, hwp, hlen⟩ := hptr
  unfold scullPWrite at h
  split at h
  · split at h <;> cases h <;> exact ⟨⟨hend, hrp, hwp, hlen⟩, rfl, rfl, by simp⟩
  · rename_i hne
    split at h <;> cases h
    · refine ⟨⟨hend, hrp, hwp, hlen⟩, rfl, rfl, ?_⟩
      rintro off n ⟨⟩
      exact ⟨hcount, hne⟩
    · refine ⟨⟨hend, hrp, hend ▸ wrapped_fits (hend ▸ hcount), hlen⟩, rfl, rfl, ?_⟩
      rintro off n ⟨⟩
      exact ⟨hcount, hne⟩

namespace PipeState

variable {u v : PipeState} {a : PipeAction}

/-- An open fails for want of a buffer only when there is none. -/
theorem buf_of_not_found {pLen : Nat} (h : bufferFound dev pLen ch = false) : dev.buf = none := by
  simp only [bufferFound, Bool.or_eq_false_iff] at h
  simpa using h.1

/-- What a step does to the buffer: it keeps the block and the length and copies below the length,
after its test, or it frees the block, or it runs the set-up. Only an open runs the set-up, and an
open that should run it does not only for want of a buffer. -/
theorem Step.buffer_cases (h : Step u a e v) (hptr : PointersFit u.pipe) :
    (PointersFit v.pipe ∧ v.pipe.bufLen = u.pipe.bufLen ∧
        (v.pipe.buf = u.pipe.buf ∨ v.pipe.buf = none) ∧
        (∀ off n, e.copy = some (off, n) → off + n ≤ u.pipe.bufLen ∧ u.passesTest a = true) ∧
        (u.setsUp a = true → u.pipe.buf = none)) ∨
      (SetUp u.pipe u.tun.scullPLen v.pipe ∧ e.copy = none ∧ u.setsUp a = true) := by
  cases h with
  | openInterrupted mode nonblock ch hintr =>
      exact .inl ⟨hptr, rfl, .inl rfl, by simp, by simp [setsUp, hintr]⟩
  | openFailed mode nonblock ch pipe err hintr hsection =>
      cases open_outcome hsection with
      | ordinaryFailed _ hfound =>
          exact .inl ⟨hptr, rfl, .inl rfl, by simp, fun _ => buf_of_not_found hfound⟩
      | wouldBlock hidx hread =>
          exact .inl ⟨hptr, rfl, .inl rfl, by simp, by simp [setsUp, hidx, hread]⟩
      | writerFailed _ _ hfound =>
          exact .inl ⟨⟨hptr.endp, hptr.rp, hptr.wp, hptr.len⟩, rfl, .inl rfl, by simp,
            fun _ => buf_of_not_found hfound⟩
  | openWaits mode nonblock ch pipe hintr hsection =>
      cases open_outcome hsection with
      | waits hidx hread =>
          exact .inl ⟨⟨hptr.endp, hptr.rp, hptr.wp, hptr.len⟩, rfl, .inl rfl, by simp,
            by simp [setsUp, hidx, hread]⟩
  | opened mode nonblock ch pipe wakeOpenq hintr hsection =>
      cases open_outcome hsection with
      | ordinary _ hidx hsetup => exact .inr ⟨hsetup, rfl, by simp [setsUp, hintr, hidx]⟩
      | reader hidx hread =>
          exact .inl ⟨⟨hptr.endp, hptr.rp, hptr.wp, hptr.len⟩, rfl, .inl rfl, by simp,
            by simp [setsUp, hidx, hread]⟩
      | writer _ _ hread hsetup => exact .inr ⟨hsetup, rfl, by simp [setsUp, hintr, hread]⟩
  | released file f ch =>
      exact .inl ⟨⟨hptr.endp, hptr.rp, hptr.wp, hptr.len⟩, rfl, (ite_eq_or_eq _ _ _).symm, by simp,
        by simp [setsUp]⟩
  | read file f count ch pipe task e _ _ _ hintr hsection =>
      obtain ⟨hptr', hbuf, hlen, hcopy⟩ := scull_p_read_bounds hptr hsection
      refine .inl ⟨hptr', hlen, .inl hbuf, fun off n hoff => ?_, by simp [setsUp]⟩
      exact ⟨(hcopy off n hoff).1, by simp [passesTest, hintr, (hcopy off n hoff).2]⟩
  | readAgain t ch file count pipe task e htask hintr hsection =>
      obtain ⟨hptr', hbuf, hlen, hcopy⟩ := scull_p_read_bounds hptr hsection
      refine .inl ⟨hptr', hlen, .inl hbuf, fun off n hoff => ?_, by simp [setsUp]⟩
      exact ⟨(hcopy off n hoff).1, by simp [passesTest, htask, hintr, (hcopy off n hoff).2]⟩
  | write file f data ch pipe task e _ _ _ hintr hsection =>
      obtain ⟨hptr', hbuf, hlen, hcopy⟩ := scull_p_write_bounds hptr hsection
      refine .inl ⟨hptr', hlen, .inl hbuf, fun off n hoff => ?_, by simp [setsUp]⟩
      exact ⟨(hcopy off n hoff).1, by simp [passesTest, hintr, (hcopy off n hoff).2]⟩
  | writeAgain t ch file data pipe task e htask hintr hsection =>
      obtain ⟨hptr', hbuf, hlen, hcopy⟩ := scull_p_write_bounds hptr hsection
      refine .inl ⟨hptr', hlen, .inl hbuf, fun off n hoff => ?_, by simp [setsUp]⟩
      exact ⟨(hcopy off n hoff).1, by simp [passesTest, htask, hintr, (hcopy off n hoff).2]⟩
  | releaseInterrupted | readInterrupted | endOfFile | writeInterrupted | ioctl =>
      exact .inl ⟨hptr, rfl, .inl rfl, by simp, by simp [setsUp]⟩
  | readWait | readSignalled | readWake | writeWait | writeSignalled | writeWake =>
      exact .inl ⟨hptr, rfl, .inl rfl, by simp, by simp [setsUp]⟩
  | openWait | openSignalled | openedAgain =>
      exact .inl ⟨hptr, rfl, .inl rfl, by simp, by simp [setsUp]⟩

/-- A copy is made by a call on an open file. -/
theorem Step.copy_file (h : Step u a e v) (hlive : u.TasksLive) (hcopy : e.copy ≠ none) :
    0 < u.filesOpen := by
  have hopen : ∀ {file : Nat} {f : File}, u.files[file]? = some f → f.live = true →
      0 < u.filesOpen := fun hfile hf =>
    List.countP_pos_iff.mpr ⟨_, List.mem_of_getElem? hfile, hf⟩
  cases h with
  | read file f count ch pipe task e hfile hf => exact hopen hfile hf
  | write file f data ch pipe task e hfile hf => exact hopen hfile hf
  | readAgain t ch file count pipe task e htask =>
      obtain ⟨f, hfile, hf⟩ := hlive _ (List.mem_of_getElem? htask) file rfl
      exact hopen hfile hf
  | writeAgain t ch file data pipe task e htask =>
      obtain ⟨f, hfile, hf⟩ := hlive _ (List.mem_of_getElem? htask) file rfl
      exact hopen hfile hf
  | _ => exact absurd rfl hcopy

/-- The open does not stretch a buffer: one that runs the set-up on an existing buffer does so
while `scull_p_len` is at most the size the buffer was allocated with. -/
def OpenFits (s : PipeState) (a : PipeAction) : Prop :=
  s.setsUp a = true → ∀ block, s.pipe.buf = some block → s.tun.scullPLen ≤ block.size

/-- What the bounds of a pipe rest on, in runs whose opens fit. -/
structure Bounded (idx : Nat) (s : PipeState) : Prop where
  index : s.pipe.idx = idx
  pointers : PointersFit s.pipe
  fits : BufFits s
  waits : s.OpenWaitsRead
  ordinary : idx ≠ properFifoBehIdx → Ordinary s

/-- A step whose open fits keeps the bounds. -/
theorem Bounded.step {idx : Nat} (h : Bounded idx u) (hopen : OpenFits u a)
    (hstep : u.step a = some (v, e)) : Bounded idx v := by
  have hs := step_sound hstep
  obtain ⟨hidx, hwaits⟩ := hs.open_waits_read h.waits
  have hordinary : idx ≠ properFifoBehIdx → Ordinary v := fun hne => (h.ordinary hne).step hstep
  rcases hs.buffer_cases h.pointers with ⟨hptr', hlen, hbuf, -, -⟩ | ⟨hsetup, -, hsets⟩
  · refine ⟨hidx.trans h.index, hptr', ⟨hptr'.endp, ?_⟩, hwaits, hordinary⟩
    intro block hblock
    rcases hbuf with hbuf | hbuf
    · rw [hlen]
      exact h.fits.2 block (hbuf.symm.trans hblock)
    · simp [hbuf] at hblock
  · obtain ⟨block, hblock, hold⟩ := hsetup.block
    have hfits : v.pipe.bufLen ≤ block.size := by
      rw [hsetup.bufLen]
      rcases hold with hold | ⟨-, hsize⟩
      · exact hopen hsets block hold
      · exact hsize.ge
    have hend : v.pipe.endp = v.pipe.bufLen := hsetup.endp.trans hsetup.bufLen.symm
    refine ⟨hidx.trans h.index, ⟨hend, .inr hsetup.rp, .inr hsetup.wp,
      hfits.trans_lt block.size_lt⟩, ⟨hend, ?_⟩, hwaits, hordinary⟩
    intro block' hblock'
    obtain rfl : block = block' := Option.some.inj (hblock.symm.trans hblock')
    exact hfits

/-- A step that keeps the bounds is an open that fits or no open. -/
theorem Bounded.open_fits {idx : Nat} (h : Bounded idx u) (hstep : u.step a = some (v, e))
    (hv : BufFits v) : OpenFits u a := by
  intro hsets block hblock
  rcases (step_sound hstep).buffer_cases h.pointers with ⟨-, -, -, -, hnone⟩ | ⟨hsetup, -, -⟩
  · simp [hnone hsets] at hblock
  · -- the set-up keeps the block and takes the length from `scull_p_len`
    obtain ⟨block', hblock', hold⟩ := hsetup.block
    have heq : u.pipe.buf = some block' := by
      rcases hold with hold | ⟨hold, -⟩
      · exact hold
      · simp [hold] at hblock
    obtain rfl : block = block' := Option.some.inj (hblock.symm.trans heq)
    exact hsetup.bufLen ▸ hv.2 block hblock'

/-- A copy of a step stays in the buffer, if there is one. -/
theorem Bounded.copy_fits {idx : Nat} (h : Bounded idx u)
    (hbuffer : idx = properFifoBehIdx → HasBuffer u a) (hstep : u.step a = some (v, e)) :
    CopyFits u e := by
  intro off n hcopy _
  have hs := step_sound hstep
  rcases hs.buffer_cases h.pointers with ⟨-, -, -, hbound, -⟩ | ⟨-, hnone, -⟩
  · obtain ⟨hlen, hpasses⟩ := hbound off n hcopy
    have hsome : u.pipe.buf.isSome = true := by
      by_cases hidx : idx = properFifoBehIdx
      · exact hbuffer hidx hpasses
      · have hu := h.ordinary hidx
        exact hu.covered.buf (hs.copy_file hu.live (by simp [hcopy]))
    obtain ⟨block, hblock⟩ := Option.isSome_iff_exists.mp hsome
    exact ⟨block, hblock, hlen.trans (h.fits.2 block hblock)⟩
  · simp [hnone] at hcopy

/-- The buffer bounds of a pipe over whole runs. In a run of opens, releases, reads, writes and
ioctls from module load in which, on the proper FIFO, every read or write that passes its test has a
buffer, `buf_len` is at most the allocated size whenever there is a buffer, and every copy stays
inside an allocated buffer, exactly when every open of the run fits. -/
theorem pipe_bounds_iff (idx : Nat) (tun : Tunables) (actions : List PipeAction)
    (hbuffer : idx = properFifoBehIdx → ∀ t a e t',
      Machine.Takes step (init idx tun) actions t a e t' → HasBuffer t a) :
    ((∀ t, Machine.Visits step (init idx tun) actions t → BufFits t) ∧
        ∀ t a e t', Machine.Takes step (init idx tun) actions t a e t' → CopyFits t e) ↔
      ∀ t a e t', Machine.Takes step (init idx tun) actions t a e t' → OpenFits t a := by
  refine Machine.holds_iff_guarded (I := Bounded idx) (Q := fun t _ e _ => CopyFits t e)
    (S := fun t a _ _ => idx = properFifoBehIdx → HasBuffer t a) ?_ (fun t ht => ht.fits) ?_ ?_ ?_
    fun t a e t' htake hidx => hbuffer hidx t a e t' htake
  · intro t a e t' ht _ hopen hstep
    exact ht.step hopen hstep
  · intro t a e t' ht hscope _ hstep
    exact ht.copy_fits hscope hstep
  · intro t a e t' ht _ hstep hfits _
    exact ht.open_fits hstep hfits
  · exact ⟨rfl, ⟨rfl, .inr rfl, .inr rfl, Nat.two_pow_pos 63⟩,
      ⟨rfl, by simp [init, ScullPipe.init]⟩, by simp [OpenWaitsRead, init],
      fun hne => ordinary_init hne tun⟩

/-- Two writers open the proper FIFO, and the second one writes. -/
def writtenTwice : List PipeAction :=
  [.openFile .wronly false {}, .openFile .wronly false {}, .write 1 [1, 2] {}]

theorem pipe_bounds_written_twice :
    (∀ t a e t', Machine.Takes step (init 3 ⟨4000, 1000, 4⟩) writtenTwice t a e t' →
        HasBuffer t a) ∧
      (∀ t, Machine.Visits step (init 3 ⟨4000, 1000, 4⟩) writtenTwice t → BufFits t) ∧
      ∀ t a e t', Machine.Takes step (init 3 ⟨4000, 1000, 4⟩) writtenTwice t a e t' →
        CopyFits t e := by
  have hbuffer : ∀ t a e t', Machine.Takes step (init 3 ⟨4000, 1000, 4⟩) writtenTwice t a e t' →
      HasBuffer t a := has_buffer_of_admits rfl
  refine ⟨hbuffer, (pipe_bounds_iff 3 ⟨4000, 1000, 4⟩ writtenTwice fun _ => hbuffer).mpr ?_⟩
  refine Machine.forall_takes_cons rfl (fun _ block h => by cases h) ?_
  refine Machine.forall_takes_cons rfl (fun _ block h => by cases h; decide) ?_
  refine Machine.forall_takes_cons rfl (fun h => absurd h (by decide)) ?_
  exact Machine.forall_takes_nil

/-- Open a pipe of four bytes, raise `scull_p_len` to eight, open it again and write. -/
def stretched : List PipeAction :=
  [.openFile .wronly false {},
    .ioctl IoctlCmd.pIoctsize.number 8 ⟨fun _ _ => true, false, none, false⟩,
    .openFile .wronly false {}, .write 1 [1, 2, 3, 4, 5, 6, 7] {}]

/-- On an ordinary pipe the second open makes `buf_len` eight on a buffer of four bytes, and the
write copies seven bytes to its start. -/
theorem pipe_bounds_broken :
    ¬ ∀ (idx : Nat) (tun : Tunables) (actions : List PipeAction),
      (∀ t, Machine.Visits step (init idx tun) actions t → BufFits t) ∧
        ∀ t a e t', Machine.Takes step (init idx tun) actions t a e t' → CopyFits t e := by
  intro h
  obtain ⟨-, hcopy⟩ := h 0 ⟨4000, 1000, 4⟩ stretched
  have hwrite := hcopy _ _ _ _ (.later rfl (.later rfl (.later rfl (.here _ rfl))))
  obtain ⟨block, hblock, hfits⟩ := hwrite 0 7 rfl (by decide)
  cases hblock
  exact absurd hfits (by decide)

end PipeState

end Ldd3.Scull
