import Ldd3.Scull.PipeOpen

/-!
# Poll and the calls it announces

`scull_p_poll` against the reads and writes that a client would make next. On the ordinary pipes
the two agree (`poll_matches_nonblocking`): the modular formula of `spacefree` is not zero exactly
when a write makes progress, on either side of the wrap. On the proper FIFO three tests look for
end of file, one in the wait of a reader, one at the start of a read and one in poll;
`readers_agree_iff` says in which states they agree, with each other and with the files that are
open for writing.
-/

namespace Ldd3.Scull

/-- What a call returns that nothing disturbs after its locked section, or `none` if it waits. -/
def sectionResult : ScullPipe × Task × Effect → Option Ret
  | (_, .readWake _ n, _) => some (.transferred n)
  | (_, .writeWake _ n, _) => some (.transferred n)
  | (_, _, e) => e.ret

section Results

variable {dev dev' : ScullPipe} {bytes : List UInt8} {nonblock : Bool} {file count : Nat}
  {data : List UInt8} {ch : Choice} {task : Task} {e : Effect}

/-- A read of a pipe with bytes returns as many as it copies, unless the copy faults. -/
theorem read_result_of_bytes (hne : dev.rp ≠ dev.wp) :
    sectionResult (scullPReadEntry dev nonblock file count ch) =
      some (if ch.fault then .failed .EFAULT else .transferred (readCount dev count)) := by
  have hentry : ¬ (dev.idx = properFifoBehIdx ∧ dev.rp = dev.wp ∧ dev.writers = 0) :=
    fun h => hne h.2.1
  rw [scullPReadEntry, if_neg hentry, scullPRead, if_neg hne]
  cases hfault : ch.fault with
  | false => simp [sectionResult]
  | true => simp [sectionResult]

/-- A read of an empty pipe waits or fails, unless it finds end of file. -/
theorem read_result_of_empty (heq : dev.rp = dev.wp)
    (hmore : ¬ (dev.idx = properFifoBehIdx ∧ dev.writers = 0)) :
    sectionResult (scullPReadEntry dev nonblock file count ch) =
      if nonblock then some (.failed .EAGAIN) else none := by
  have hentry : ¬ (dev.idx = properFifoBehIdx ∧ dev.rp = dev.wp ∧ dev.writers = 0) :=
    fun h => hmore ⟨h.1, h.2.2⟩
  rw [scullPReadEntry, if_neg hentry, scullPRead, if_pos heq]
  split <;> rfl

/-- A read of the empty proper FIFO without writers finds end of file. -/
theorem read_result_of_eof (heq : dev.rp = dev.wp) (hidx : dev.idx = properFifoBehIdx)
    (hwriters : dev.writers = 0) :
    sectionResult (scullPReadEntry dev nonblock file count ch) = some (.transferred 0) := by
  rw [scullPReadEntry, if_pos ⟨hidx, heq, hwriters⟩]
  rfl

/-- A write to a pipe with space returns as many bytes as it copies. -/
theorem write_result_of_space (hspace : spacefree dev ≠ 0) (hfault : ch.fault = false) :
    sectionResult (scullPWrite dev nonblock file data ch) =
      some (.transferred (writeCount dev data.length)) := by
  rw [scullPWrite, if_neg hspace]
  simp [hfault, sectionResult]

/-- A non-blocking write to a full pipe fails. -/
theorem write_result_of_full (hfull : spacefree dev = 0) :
    sectionResult (scullPWrite dev true file data ch) = some (.failed .EAGAIN) := by
  rw [scullPWrite, if_pos hfull]
  rfl

/-- A read of a pipe with bytes makes progress. -/
theorem Stores.read_count_pos (h : Stores dev bytes) (hne : dev.rp ≠ dev.wp) (hcount : 1 ≤ count) :
    1 ≤ readCount dev count := by
  cases h with
  | void _ _ hrp hwp => exact absurd (hrp.trans hwp.symm) hne
  | ring r hring =>
      have hrd := r.rd_lt
      have hsize : r.size ≠ 0 := by
        rw [Ne, Ring.size_eq_zero_iff, ← hring.rp, ← hring.wp]
        exact hne
      rw [hring.read_count_eq hne]
      omega

/-- A read of at least one byte returns some exactly if there are bytes. -/
theorem Stores.read_progress_iff (h : Stores dev bytes) (nonblock : Bool) (file : Nat)
    (hcount : 1 ≤ count) (hfault : ch.fault = false) :
    (∃ n, 1 ≤ n ∧
        sectionResult (scullPReadEntry dev nonblock file count ch) = some (.transferred n)) ↔
      dev.rp ≠ dev.wp := by
  constructor
  · rintro ⟨n, hpos, hresult⟩ heq
    by_cases heof : dev.idx = properFifoBehIdx ∧ dev.writers = 0
    · rw [read_result_of_eof heq heof.1 heof.2] at hresult
      cases hresult
      omega
    · rw [read_result_of_empty heq heof] at hresult
      split at hresult <;> cases hresult
  · intro hne
    refine ⟨_, h.read_count_pos hne hcount, ?_⟩
    rw [read_result_of_bytes hne, hfault]
    rfl

/-- The write pointer is ahead of the read pointer, or it has gone round a buffer that is no longer
than half of the address space. -/
def WrapsInHalf (dev : ScullPipe) : Prop := dev.rp ≤ dev.wp ∨ dev.bufLen ≤ 2 ^ 63

/-- `spacefree` counts the free bytes but one, on either side of the wrap. -/
theorem RingOf.spacefree_of_wraps {r : Ring UInt8} (h : RingOf dev r) (hlen : r.len < 2 ^ 64)
    (hwraps : WrapsInHalf dev) : spacefree dev + r.size + 1 = r.len := by
  unfold WrapsInHalf at hwraps
  rw [h.rp, h.wp, h.bufLen] at hwraps
  rcases Nat.lt_or_ge r.wr r.rd with hlt | hge
  · exact h.spacefree_round (hwraps.resolve_left (by omega)) hlt
  · exact h.spacefree_ahead hlen hge

/-- A write to a pipe with space makes progress. -/
theorem RingOf.write_count_pos {r : Ring UInt8} (h : RingOf dev r) (hlen : r.len < 2 ^ 64)
    (hwraps : WrapsInHalf dev) (hspace : spacefree dev ≠ 0) (hcount : 1 ≤ count) :
    1 ≤ writeCount dev count := by
  have hfree := h.spacefree_of_wraps hlen hwraps
  have hrd := r.rd_lt
  have hwr := r.wr_lt
  simp only [writeCount, h.rp, h.wp, h.endp]
  simp only [Ring.size] at hfree
  split <;> split at hfree <;> omega

/-- A non-blocking write of at least one byte returns some exactly if there is space. -/
theorem RingOf.write_progress_iff {r : Ring UInt8} (h : RingOf dev r) (file : Nat)
    (hlen : r.len < 2 ^ 64) (hwraps : WrapsInHalf dev) (hdata : 1 ≤ data.length)
    (hfault : ch.fault = false) :
    (∃ n, 1 ≤ n ∧ sectionResult (scullPWrite dev true file data ch) = some (.transferred n)) ↔
      spacefree dev ≠ 0 := by
  constructor
  · rintro ⟨n, -, hresult⟩ hfull
    rw [write_result_of_full hfull] at hresult
    cases hresult
  · intro hspace
    exact ⟨_, h.write_count_pos hlen hwraps hspace hdata, write_result_of_space hspace hfault⟩

/-- The copy, if it succeeds, stays in the half of the address space that belongs to the kernel. -/
def Effect.Mapped (e : Effect) : Prop :=
  ∀ off n, e.copy = some (off, n) → e.ret = none → off + n ≤ 2 ^ 63

/-- A read does not take the read pointer past the write pointer. -/
theorem WrapsInHalf.read (h : WrapsInHalf dev)
    (hsection : scullPRead dev nonblock file count ch = (dev', task, e)) : WrapsInHalf dev' := by
  unfold scullPRead at hsection
  split at hsection
  · split at hsection <;> cases hsection <;> exact h
  · rename_i hne
    split at hsection <;> cases hsection
    · exact h
    · rcases h with hle | hhalf
      · have hcount : readCount dev count ≤ dev.wp - dev.rp := by
          rw [readCount, if_pos (by omega)]
          omega
        have hmoved : (if dev.rp + readCount dev count = dev.endp then 0
            else dev.rp + readCount dev count) ≤ dev.wp := by
          split <;> omega
        exact .inl hmoved
      · exact .inr hhalf

/-- A write takes the write pointer round the end only by a copy up to the end. -/
theorem WrapsInHalf.write (h : WrapsInHalf dev) (hstores : Stores dev bytes)
    (hsection : scullPWrite dev nonblock file data ch = (dev', task, e)) (hmapped : e.Mapped) :
    WrapsInHalf dev' := by
  have hend : dev.endp = dev.bufLen := by
    cases hstores with
    | void hlen hend => rw [hlen, hend]
    | ring r hring => rw [hring.endp, hring.bufLen]
  unfold scullPWrite at hsection
  split at hsection
  · split at hsection <;> cases hsection <;> exact h
  · split at hsection <;> cases hsection
    · exact h
    · have hcopy := hmapped _ _ rfl rfl
      by_cases hround : dev.wp + writeCount dev data.length = dev.endp
      · right
        show dev.bufLen ≤ 2 ^ 63
        omega
      · rcases h with hle | hhalf
        · have hmoved : dev.rp ≤ if dev.wp + writeCount dev data.length = dev.endp then 0
              else dev.wp + writeCount dev data.length := by
            rw [if_neg hround]
            omega
          exact .inl hmoved
        · exact .inr hhalf

end Results

namespace PipeState

variable {u v : PipeState} {a : PipeAction} {e : Effect} {bytes : List UInt8}

/-- What holds of the pipe with index `idx` in every state: the next length is an `unsigned long`,
and the pointers describe the stored bytes. -/
structure Sound (idx : Nat) (s : PipeState) : Prop where
  index : s.pipe.idx = idx
  waits : s.OpenWaitsRead
  p_len_lt : s.tun.scullPLen < 2 ^ 64
  stores : ∃ bytes, Stores s.pipe bytes

/-- Every step keeps this. -/
theorem Sound.step {idx : Nat} (h : Sound idx u) (hstep : Step u a e v) : Sound idx v := by
  obtain ⟨bytes, hstores⟩ := h.stores
  obtain ⟨hidx, hwaits⟩ := hstep.open_waits_read h.waits
  refine ⟨hidx.trans h.index, hwaits, hstep.p_len_lt h.p_len_lt, ?_⟩
  cases hreset : u.resets a with
  | false => exact ⟨_, (hstep.stores hreset hstores).2⟩
  | true => exact ⟨_, (hstep.reset hreset).1.stores h.p_len_lt⟩

/-- It holds when the module is loaded. -/
theorem sound_init (idx : Nat) {tun : Tunables} (hlen : tun.scullPLen < 2 ^ 64) :
    Sound idx (init idx tun) :=
  ⟨rfl, (fun _ hmem => by cases hmem), hlen, [], .void rfl rfl rfl rfl rfl⟩

/-- A step whose copy is mapped keeps the write pointer ahead, or takes it round half of the address
space at most. -/
theorem Step.wraps_in_half (h : Step u a e v) (hmapped : e.Mapped) (hstores : Stores u.pipe bytes)
    (hwraps : WrapsInHalf u.pipe) : WrapsInHalf v.pipe := by
  cases hreset : u.resets a with
  | true =>
      have hsetup := (h.reset hreset).1
      exact .inl (hsetup.rp.trans hsetup.wp.symm).le
  | false =>
      rcases h.bytes_cases hreset with ⟨hsame, -, -⟩ | ⟨_, _, _, _, _, hsection⟩ |
          ⟨_, _, _, _, _, hsection⟩
      · unfold WrapsInHalf
        rw [hsame.rp, hsame.wp, hsame.bufLen]
        exact hwraps
      · exact hwraps.read hsection
      · exact hwraps.write hstores hsection hmapped

/-- Poll on the ordinary pipes agrees with non-blocking calls. In every state of a run whose copies
stay in the kernel's half of the address space, and in which the buffer has a length of two or more,
poll reports `POLLIN` exactly if a non-blocking read of at least one byte returns some, and that
read fails with `-EAGAIN` otherwise; the same holds for `POLLOUT` and a non-blocking write; and one
of the two is reported. -/
theorem poll_matches_nonblocking (idx : Nat) (hidx : idx ≠ properFifoBehIdx) (tun : Tunables)
    (hlen : tun.scullPLen < 2 ^ 64) (actions : List PipeAction)
    (hmapped : ∀ t a e t', Machine.Takes PipeState.step (init idx tun) actions t a e t' → e.Mapped)
    (t : PipeState) (hvisit : Machine.Visits PipeState.step (init idx tun) actions t)
    (hbuf : 2 ≤ t.pipe.bufLen) (file count : Nat) (hcount : 1 ≤ count) (data : List UInt8)
    (hdata : 1 ≤ data.length) (ch : Choice) (hfault : ch.fault = false) :
    ((scullPPoll t.pipe).pollin = true ↔
        ∃ n, 1 ≤ n ∧
          sectionResult (scullPReadEntry t.pipe true file count ch) = some (.transferred n)) ∧
      ((scullPPoll t.pipe).pollin = false →
        sectionResult (scullPReadEntry t.pipe true file count ch) = some (.failed .EAGAIN)) ∧
      ((scullPPoll t.pipe).pollout = true ↔
        ∃ n, 1 ≤ n ∧
          sectionResult (scullPWrite t.pipe true file data ch) = some (.transferred n)) ∧
      ((scullPPoll t.pipe).pollout = false →
        sectionResult (scullPWrite t.pipe true file data ch) = some (.failed .EAGAIN)) ∧
      ((scullPPoll t.pipe).pollin = true ∨ (scullPPoll t.pipe).pollout = true) := by
  obtain ⟨hsound, hwraps⟩ : Sound idx t ∧ WrapsInHalf t.pipe := by
    refine hvisit.invariant_of_guard (I := fun t => Sound idx t ∧ WrapsInHalf t.pipe)
      (G := fun _ _ e _ => e.Mapped) ?_ ⟨sound_init idx hlen, .inl le_rfl⟩ hmapped
    rintro u a e v ⟨hsound, hwraps⟩ hmapped hstep
    obtain ⟨bytes, hstores⟩ := hsound.stores
    have hs := step_sound hstep
    exact ⟨hsound.step hs, hs.wraps_in_half hmapped hstores hwraps⟩
  have hindex : t.pipe.idx ≠ properFifoBehIdx := fun h => hidx (hsound.index.symm.trans h)
  have hmore : ¬ (t.pipe.idx = properFifoBehIdx ∧ t.pipe.writers = 0) := fun h => hindex h.1
  have hpollin : (scullPPoll t.pipe).pollin = (t.pipe.rp != t.pipe.wp) := by
    simp [scullPPoll, hindex]
  have hpollout : (scullPPoll t.pipe).pollout = (spacefree t.pipe != 0) := by
    simp [scullPPoll, hindex]
  obtain ⟨bytes, hstores⟩ := hsound.stores
  have hread := hstores.read_progress_iff true file hcount hfault
  cases hstores with
  | void hzero => omega
  | ring r hring hrlen =>
      have hfree := hring.spacefree_of_wraps hrlen hwraps
      have hwrite := hring.write_progress_iff file hrlen hwraps hdata hfault
      rw [hpollin, hpollout, hread, hwrite]
      refine ⟨bne_iff_ne, ?_, bne_iff_ne, ?_, ?_⟩
      · intro hnot
        rw [read_result_of_empty (by simpa using hnot) hmore]
        rfl
      · intro hnot
        exact write_result_of_full (by simpa using hnot)
      · -- an empty ring has all but one of its cells free
        by_cases hne : t.pipe.rp = t.pipe.wp
        · have hsize := r.size_eq_zero_iff.mpr (by rw [← hring.rp, ← hring.wp]; exact hne)
          have hbuf := hring.bufLen
          have hspace : spacefree t.pipe ≠ 0 := by omega
          exact .inr (bne_iff_ne.mpr hspace)
        · exact .inl (bne_iff_ne.mpr hne)

theorem poll_matches_nonblocking_joined :
    ∃ t, Machine.Visits PipeState.step (init 0 ⟨4000, 1000, 4⟩) joinEmpty t ∧
      (scullPPoll t.pipe).pollin = true ∧
      ∃ n, 1 ≤ n ∧ sectionResult (scullPReadEntry t.pipe true 0 1 {}) = some (.transferred n) := by
  have hmapped : ∀ t a e t', Machine.Takes PipeState.step (init 0 ⟨4000, 1000, 4⟩) joinEmpty
      t a e t' → e.Mapped := by
    refine Machine.forall_takes_cons rfl (fun _ _ h => by cases h) ?_
    refine Machine.forall_takes_cons rfl (fun _ _ h => by cases h) ?_
    refine Machine.forall_takes_cons rfl (fun _ _ h _ => by cases h; decide) ?_
    refine Machine.forall_takes_cons rfl (fun _ _ h _ => by cases h; decide) ?_
    exact Machine.forall_takes_nil
  refine ⟨_, .later rfl (.later rfl (.later rfl (.later rfl (.here _ [])))), rfl, ?_⟩
  exact (poll_matches_nonblocking 0 (by decide) ⟨4000, 1000, 4⟩ (by decide) joinEmpty hmapped _
    (.later rfl (.later rfl (.later rfl (.later rfl (.here _ []))))) (by decide) 0 1 le_rfl [1]
    le_rfl {} rfl).1.mp rfl

/-- A reader asleep in its wait leaves it when it is woken up, because it finds its condition
true. -/
def SleeperLeaves (s : PipeState) : Prop :=
  Wait.waitEvent (s.pipe.rp != s.pipe.wp) false (.test true) = .next .relock

/-- The three ways to observe the proper FIFO agree, where a writer is a file that is open with
write access. A reader that sleeps may leave its wait exactly if a blocking read that starts now
would not wait, which is so exactly if there are bytes or no writer is left; without bytes and
writers a read returns 0. Poll reports `POLLIN` exactly if a read of at least one byte would return
some, and `POLLHUP` if there is no writer. -/
structure ReadersAgree (s : PipeState) : Prop where
  sleeper : s.readerAsleep = true →
    (SleeperLeaves s ↔ ∀ file count ch,
      sectionResult (scullPReadEntry s.pipe false file count ch) ≠ none)
  fresh : (∀ file count ch, sectionResult (scullPReadEntry s.pipe false file count ch) ≠ none) ↔
    s.pipe.rp ≠ s.pipe.wp ∨ s.writersOpen = 0
  eof : s.pipe.rp = s.pipe.wp → s.writersOpen = 0 → ∀ nonblock file count ch,
    sectionResult (scullPReadEntry s.pipe nonblock file count ch) = some (.transferred 0)
  pollin : ∀ nonblock file count ch, 1 ≤ count → ch.fault = false →
    ((scullPPoll s.pipe).pollin = true ↔ ∃ n, 1 ≤ n ∧
      sectionResult (scullPReadEntry s.pipe nonblock file count ch) = some (.transferred n))
  pollhup : s.writersOpen = 0 → (scullPPoll s.pipe).pollhup = true
  stranded : s.readerAsleep = true → s.pipe.rp = s.pipe.wp → s.writersOpen ≠ 0

/-- The state is reached from module load by a run in which every read or write that passes its test
has a buffer. -/
def ReachedBuffered (idx : Nat) (tun : Tunables) (s : PipeState) : Prop :=
  ∃ actions, Machine.Visits PipeState.step (init idx tun) actions s ∧
    ∀ t a e t', Machine.Takes PipeState.step (init idx tun) actions t a e t' → HasBuffer t a

/-- The condition of the wait is that there are bytes. -/
theorem sleeper_leaves_iff : SleeperLeaves u ↔ u.pipe.rp ≠ u.pipe.wp := by
  by_cases heq : u.pipe.rp = u.pipe.wp <;> simp [SleeperLeaves, Wait.waitEvent, heq]

/-- A blocking read waits exactly if there are no bytes and there is a writer. -/
theorem read_waits_iff (hidx : u.pipe.idx = properFifoBehIdx) (file count : Nat) (ch : Choice) :
    sectionResult (scullPReadEntry u.pipe false file count ch) = none ↔
      u.pipe.rp = u.pipe.wp ∧ u.pipe.writers ≠ 0 := by
  by_cases heq : u.pipe.rp = u.pipe.wp
  · by_cases hwriters : u.pipe.writers = 0
    · simp [read_result_of_eof heq hidx hwriters, hwriters]
    · rw [read_result_of_empty heq (fun h => hwriters h.2)]
      simp [heq, hwriters]
  · rw [read_result_of_bytes heq]
    simp [heq]

/-- Every blocking read that starts now returns exactly if there are bytes or nobody counts as a
writer. -/
theorem reads_return_iff (hidx : u.pipe.idx = properFifoBehIdx) :
    (∀ file count ch, sectionResult (scullPReadEntry u.pipe false file count ch) ≠ none) ↔
      u.pipe.rp ≠ u.pipe.wp ∨ u.pipe.writers = 0 := by
  have hreturns : ∀ file count ch,
      sectionResult (scullPReadEntry u.pipe false file count ch) ≠ none ↔
        u.pipe.rp ≠ u.pipe.wp ∨ u.pipe.writers = 0 := by
    intro file count ch
    rw [Ne, read_waits_iff hidx, not_and_or, not_not]
  exact ⟨fun h => (hreturns 0 1 {}).mp (h 0 1 {}), fun h file count ch =>
    (hreturns file count ch).mpr h⟩

/-- While nobody counts as a writer. -/
theorem Sound.readers_agree_iff_of_eq (hs : Sound properFifoBehIdx u)
    (hwriters : u.pipe.writers = 0) :
    ReadersAgree u ↔
      u.writersOpen = 0 ∧ u.pipe.rp = u.pipe.wp ∧ u.readerAsleep = false := by
  have hidx := hs.index
  obtain ⟨bytes, hstores⟩ := hs.stores
  have hpoll : scullPPoll u.pipe = { pollerr := true, pollhup := true } := by
    simp [scullPPoll, hidx, hwriters]
  have hreturns := (reads_return_iff hidx).mpr (.inr hwriters)
  constructor
  · intro hagree
    -- with bytes in the pipe a read returns some, but poll does not announce it
    have heq : u.pipe.rp = u.pipe.wp := by
      by_contra hne
      have hpollin := (hagree.pollin true 0 1 {} le_rfl rfl).mpr
        ((hstores.read_progress_iff true 0 le_rfl rfl).mpr hne)
      rw [hpoll] at hpollin
      cases hpollin
    -- a read finds end of file, but a sleeper waits for bytes
    have hawake : u.readerAsleep = false := by
      refine Bool.eq_false_iff.mpr fun hasleep => ?_
      exact sleeper_leaves_iff.mp ((hagree.sleeper hasleep).mpr hreturns) heq
    exact ⟨(hagree.fresh.mp hreturns).resolve_left (not_not.mpr heq), heq, hawake⟩
  · rintro ⟨hopen, heq, hawake⟩
    have hasleep : ¬ u.readerAsleep = true := Bool.eq_false_iff.mp hawake
    refine ⟨fun h => absurd h hasleep, ?_, ?_, ?_, fun _ => by rw [hpoll],
      fun h => absurd h hasleep⟩
    · exact iff_of_true hreturns (.inr hopen)
    · exact fun _ _ _ _ _ _ => read_result_of_eof heq hidx hwriters
    · intro nonblock file count ch hcount hfault
      rw [hpoll, hstores.read_progress_iff nonblock file hcount hfault]
      simp [heq]

/-- While somebody counts as a writer. -/
theorem Sound.readers_agree_iff_of_ne (hs : Sound properFifoBehIdx u)
    (hwriters : u.pipe.writers ≠ 0) :
    ReadersAgree u ↔ u.writersOpen ≠ 0 := by
  have hidx := hs.index
  obtain ⟨bytes, hstores⟩ := hs.stores
  have hpoll : (scullPPoll u.pipe).pollhup = false := by simp [scullPPoll, hwriters]
  constructor
  · intro hagree hnone
    cases hpoll.symm.trans (hagree.pollhup hnone)
  · intro hopen
    refine ⟨fun _ => ?_, ?_, fun _ hnone => absurd hnone hopen, ?_,
      fun hnone => absurd hnone hopen, fun _ _ => hopen⟩
    · rw [sleeper_leaves_iff, reads_return_iff hidx]
      simp [hwriters]
    · rw [reads_return_iff hidx]
      simp [hwriters, hopen]
    · intro nonblock file count ch hcount hfault
      rw [hstores.read_progress_iff nonblock file hcount hfault]
      simp [scullPPoll, hwriters]

/-- End of file on the proper FIFO. In every state that is reached without a read or a write that
passes its test after the buffer was freed, the three ways to observe the pipe agree exactly if the
counter `writers` is zero just when no file is open for writing, and no byte is queued and no reader
sleeps when it is. -/
theorem readers_agree_iff (tun : Tunables) (hlen : tun.scullPLen < 2 ^ 64) (t : PipeState)
    (hreached : ReachedBuffered properFifoBehIdx tun t) :
    ReadersAgree t ↔
      (t.pipe.writers = 0 ↔ t.writersOpen = 0) ∧
        (t.pipe.writers = 0 → t.pipe.rp = t.pipe.wp ∧ t.readerAsleep = false) := by
  obtain ⟨actions, hvisit, -⟩ := hreached
  have hsound : Sound properFifoBehIdx t :=
    hvisit.invariant (I := Sound properFifoBehIdx)
      (fun _ _ _ _ hs hstep => hs.step (step_sound hstep)) (sound_init _ hlen)
  by_cases hwriters : t.pipe.writers = 0
  · rw [hsound.readers_agree_iff_of_eq hwriters]
    simp [hwriters]
  · rw [hsound.readers_agree_iff_of_ne hwriters]
    simp [hwriters]

/-- A reader waits for a writer, the writer comes, and the reader goes on to sleep in a read. -/
def sleepForWriter : List PipeAction :=
  [.openFile .rdonly false {}, .openFile .wronly false {}, .task 0 {}, .task 0 {}, .read 1 1 {},
    .task 1 {}, .task 1 {}, .task 1 {}]

theorem readers_agree_with_writer :
    ∃ t, ReachedBuffered 3 ⟨4000, 1000, 4⟩ t ∧ t.readerAsleep = true ∧ ReadersAgree t := by
  have hbuffer : ∀ t a e t', Machine.Takes PipeState.step (init 3 ⟨4000, 1000, 4⟩) sleepForWriter
      t a e t' → HasBuffer t a := has_buffer_of_admits rfl
  have hreached : ReachedBuffered 3 ⟨4000, 1000, 4⟩ _ :=
    ⟨sleepForWriter, Machine.visits_of_run (rfl : Machine.run _ _ _ = some (_, _)), hbuffer⟩
  exact ⟨_, hreached, rfl, (readers_agree_iff ⟨4000, 1000, 4⟩ (by decide) _ hreached).mpr
    (by decide)⟩

/-- The reader is still asleep when the last writer has released the pipe, where a new read returns
zero. If the writer leaves a byte behind, poll does not announce it, and a new read returns it. An
open for writing that fails for want of memory stays counted, and after the release of the last
writer a reader goes to sleep on the empty pipe, which poll does not report as hung up. -/
theorem readers_disagree :
    (∃ t, Machine.Visits PipeState.step (init 3 ⟨4000, 1000, 4⟩)
        (sleepForWriter ++ [.release 0 {}]) t ∧ t.readerAsleep = true ∧ ¬ SleeperLeaves t ∧
        sectionResult (scullPReadEntry t.pipe false 1 1 {}) = some (.transferred 0) ∧
        ¬ ReadersAgree t) ∧
      (∃ t, Machine.Visits PipeState.step (init 3 ⟨4000, 1000, 4⟩)
        [.openFile .rdonly false {}, .openFile .wronly false {}, .task 0 {}, .task 0 {},
          .write 0 [7] {}, .task 1 {}, .release 0 {}] t ∧ (scullPPoll t.pipe).pollin = false ∧
        sectionResult (scullPReadEntry t.pipe false 1 1 {}) = some (.transferred 1) ∧
        ¬ ReadersAgree t) ∧
      ∃ t, Machine.Visits PipeState.step (init 3 ⟨4000, 1000, 4⟩)
        [.openFile .wronly false { alloc := false }, .openFile .wronly false {},
          .openFile .rdonly false {}, .release 0 {}, .read 1 1 {}, .task 0 {}, .task 0 {},
          .task 0 {}] t ∧ t.readerAsleep = true ∧ t.pipe.rp = t.pipe.wp ∧ t.writersOpen = 0 ∧
        (scullPPoll t.pipe).pollhup = false ∧ ¬ ReadersAgree t := by
  refine ⟨?_, ?_, ?_⟩
  · refine ⟨_, Machine.visits_of_run (rfl : Machine.run _ _ _ = some (_, _)), rfl, ?_, rfl, ?_⟩
    · rw [sleeper_leaves_iff]
      exact fun hne => hne rfl
    · intro hagree
      have hleaves := (hagree.sleeper rfl).mpr ((reads_return_iff rfl).mpr (.inr rfl))
      exact sleeper_leaves_iff.mp hleaves rfl
  · refine ⟨_, Machine.visits_of_run (rfl : Machine.run _ _ _ = some (_, _)), rfl, rfl, ?_⟩
    intro hagree
    have hpollin := (hagree.pollin false 1 1 {} le_rfl rfl).mpr ⟨1, le_rfl, rfl⟩
    cases hpollin
  · refine ⟨_, Machine.visits_of_run (rfl : Machine.run _ _ _ = some (_, _)), rfl, rfl, rfl, rfl,
      ?_⟩
    exact fun hagree => hagree.stranded rfl rfl rfl

end PipeState

end Ldd3.Scull
