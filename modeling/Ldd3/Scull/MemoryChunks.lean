import Ldd3.Chunks
import Ldd3.Scull.MemoryMap

/-!
# Chunks and geometry do not show

A client fills a freshly trimmed device from position zero on, in requests of any sizes, and reads
it back in requests of any other sizes. Every write is cut at the end of a quantum, and so is every
read, but both make progress, and a device that stores a prefix of the data at position zero keeps
doing so. `transfer_eq` says that the reader gets back exactly what was written, whatever the
geometry and the sizes.
-/

namespace Ldd3.Scull

open WriteLog Chunks

variable {β : Type}

/-- With allocations that succeed, the walk to a node reaches it. -/
theorem scull_follow_reaches {alloc : Nat → Bool} (halloc : ∀ k, alloc k = true) (n : Nat)
    (nodes : List (ScullQset β)) (next : Nat) :
    n < (scullFollow alloc n nodes next).1.length := by
  induction n generalizing nodes next with
  | zero =>
      cases nodes with
      | nil => simp [scullFollow, halloc]
      | cons node rest => simp [scullFollow]
  | succ n ih =>
      cases nodes with
      | nil => simpa [scullFollow, halloc] using ih [] (next + 1)
      | cons node rest => simpa [scullFollow] using ih rest next

/-- With allocations that succeed, a write does not run out of memory. -/
theorem scull_write_ret_ne {stale : Nat → Nat → β} {dev dev' : ScullDev β} {pos next next' : Nat}
    {data : List β} {ch : MemChoice β} {e : MemEffect β} (halloc : ∀ k, ch.alloc k = true)
    (h : scullWrite stale dev pos data ch next = (dev', next', e)) :
    e.ret ≠ .failed .ENOMEM := by
  have hreach := scull_follow_reaches halloc (dev.position pos).qsetP dev.qset next
  unfold scullWrite at h
  split at h
  · cases h
    nofun
  · simp only at h
    split at h
    · rename_i hnone
      exact absurd (List.getElem?_eq_none_iff.mp hnone) (by omega)
    · split at h
      · rename_i hnone
        simp only [allocData, halloc, if_true] at hnone
        split at hnone <;> cases hnone
      · split at h
        · rename_i hnone
          simp only [allocQuantum, halloc, if_true] at hnone
          split at hnone <;> cases hnone
        · split at h <;> cases h <;> nofun

namespace MemState

/-- Device `i` stores `bs` at position zero and nothing else. -/
structure Holds (s : MemState β) (i : Nat) (bs : List β) : Prop where
  lt : i < s.nrDevs
  stores : ∃ log, StoresLog s.objSize (s.devices i) log ∧ extent log = bs.length ∧
    ∀ x, byteAt log x = bs[x]?

variable {stale : Nat → Nat → β} {s : MemState β} {i : Nat} {bs : List β}

/-- `dev->len` is the length of what the device holds. -/
theorem Holds.len (h : Holds s i bs) : (s.devices i).len = bs.length := by
  obtain ⟨log, hlog, hextent, -⟩ := h.stores
  rw [hlog.len, hextent]

/-- What the writer of a client sees of `scull_write`: the bytes taken and the position after
them. -/
def put (stale : Nat → Nat → β) (i : Nat) (s : MemState β) (pos : Nat) (data : List β) :
    Option (MemState β × Nat × Nat) :=
  match s.step stale (.write i pos data {}) with
  | some (t, { ret := .done n, fPos := some pos', .. }) => some (t, n, pos')
  | _ => none

/-- What the reader of a client sees of `scull_read`: the number of bytes, the bytes and the
position after them. -/
def get (stale : Nat → Nat → β) (i : Nat) (s : MemState β) (pos count : Nat) :
    Option (MemState β × Nat × List β × Nat) :=
  match s.step stale (.read i pos count {}) with
  | some (t, { ret := .done n, got, fPos := some pos', .. }) => some (t, n, got, pos')
  | _ => none

variable {t : MemState β} {e : MemEffect β} {pos count n pos' : Nat} {data : List β}

theorem put_eq (h : s.step stale (.write i pos data {}) = some (t, e)) (hret : e.ret = .done n)
    (hpos : e.fPos = some pos') : put stale i s pos data = some (t, n, pos') := by
  obtain ⟨copy, got, freed, fPos, ret⟩ := e
  cases hret
  cases hpos
  rw [put, h]

theorem get_eq (h : s.step stale (.read i pos count {}) = some (t, e)) (hret : e.ret = .done n)
    (hpos : e.fPos = some pos') : get stale i s pos count = some (t, n, e.got, pos') := by
  obtain ⟨copy, got, freed, fPos, ret⟩ := e
  cases hret
  cases hpos
  rw [get, h]

/-- A write behind what the device holds stores a part of the data there, and a nonempty one if
there is any data. -/
theorem Holds.write (stale : Nat → Nat → β) (h : Holds s i bs) (hdata : data ≠ [])
    (hpos : bs.length + data.length < 2 ^ 63) :
    ∃ t n, put stale i s bs.length data = some (t, n, bs.length + n) ∧ 0 < n ∧ n ≤ data.length ∧
      Holds t i (bs ++ data.take n) := by
  obtain ⟨log, hlog, hextent, hbytes⟩ := h.stores
  obtain ⟨t, e, hlocked⟩ := locked_ends h.lt hlog.live {} (some bs.length)
    (fun dev next => scullWrite stale dev bs.length data {} next)
  have hstep : s.step stale (.write i bs.length data {}) = some (t, e) := by
    rw [step, if_pos hpos, hlocked]
  cases mem_step_sound hstep with
  | writeInterrupted _ _ _ _ hintr => cases hintr
  | write _ _ _ _ dev next _ _ _ _ hwrite =>
      cases scull_write_outcome hlog.arrays hwrite with
      | oops hzero => exact absurd hzero hlog.total_len_ne
      | noMemory nodes => exact absurd rfl (scull_write_ret_ne (fun _ => rfl) hwrite)
      | faulted nodes quantum n _ hfault => cases hfault
      | stored nodes quantum n _ _ hworks hn hset =>
          have hstored := hlog.store hworks hn hset
          simp only [position_eq hlog.geometry] at hn
          have hroom := Nat.mod_lt bs.length hlog.geometry.quantum_pos
          have hlength := List.length_pos_iff.mpr hdata
          have htaken : (data.take n).length = n := by
            rw [List.length_take]
            omega
          refine ⟨_, n, put_eq hstep rfl rfl, by omega, by omega, h.lt,
            log ++ [(bs.length, data.take n)], by simpa using hstored, ?_, fun x => ?_⟩
          · rw [extent_append, hextent, htaken, List.length_append, htaken]
            omega
          · rw [byte_at_append, htaken, hbytes, List.getElem?_append]
            split
            · rename_i hin
              rw [if_neg (by omega)]
            · rename_i hout
              split
              · rfl
              · rename_i hpast
                rw [List.getElem?_eq_none (by omega), List.getElem?_eq_none (by omega)]

/-- A read from a position in what the device holds delivers the bytes there, and some if there are
any. -/
theorem Holds.read (stale : Nat → Nat → β) (h : Holds s i bs) (hpos : pos ≤ bs.length)
    (hcount : 0 < count) (hbound : pos + count < 2 ^ 63) :
    ∃ t n, get stale i s pos count = some (t, n, (bs.drop pos).take n, pos + n) ∧
      pos + n ≤ bs.length ∧ (pos < bs.length → 0 < n) ∧ Holds t i bs := by
  obtain ⟨log, hlog, hextent, hbytes⟩ := h.stores
  obtain ⟨t, e, hlocked⟩ := locked_ends h.lt hlog.live {} (some pos)
    (fun dev next => scullRead dev pos count {} next)
  have hstep : s.step stale (.read i pos count {}) = some (t, e) := by
    rw [step, if_pos hbound, hlocked]
  cases mem_step_sound hstep with
  | readInterrupted _ _ _ _ hintr => cases hintr
  | read _ _ _ _ dev next _ _ _ _ hread =>
      have houtcome := scull_read_outcome hlog.arrays hread
      obtain ⟨hend, hinside⟩ := hlog.read_spec rfl houtcome
      have hholds :
          Holds { s with devices := Function.update s.devices i dev, next := next } i bs :=
        ⟨h.lt, log, by simpa using hlog.read houtcome, hextent, hbytes⟩
      rcases Nat.lt_or_eq_of_le hpos with hlt | rfl
      · have hroom := Nat.mod_lt pos hlog.geometry.quantum_pos
        have hlen := h.len
        have hbyte : byteAt log pos = some bs[pos] := by simp [hbytes, hlt]
        obtain ⟨hret, hnext, hlength, hgot⟩ := hinside bs[pos] hbyte _ rfl
        generalize hn : min (min count ((s.devices i).len - pos))
          ((s.devices i).quantumLen - pos % (s.devices i).quantumLen) = n at hret hnext hlength hgot
        have htaken : e.got = (bs.drop pos).take n := by
          refine List.ext_getElem? fun j => ?_
          rcases Nat.lt_or_ge j n with hj | hj
          · have hin : pos + j < bs.length := by omega
            have hbyte : byteAt log (pos + j) = some bs[pos + j] := by simp [hbytes, hin]
            rw [hgot j hj _ hbyte, List.getElem?_take_of_lt hj, List.getElem?_drop]
            simp [hin]
          · rw [List.getElem?_eq_none (by omega), List.getElem?_eq_none]
            rw [List.length_take]
            omega
        refine ⟨_, n, ?_, by omega, fun _ => by omega, hholds⟩
        rw [← htaken]
        exact get_eq hstep hret hnext
      · obtain ⟨hret, hnone, hnext⟩ := hend hextent.le
        refine ⟨_, 0, ?_, by omega, fun hlt => absurd hlt (Nat.lt_irrefl _), hholds⟩
        rw [List.take_zero, ← hnone]
        exact get_eq hstep hret hnext

/-- Device `i` is there, no caller has died with its lock, and the tunables are a geometry that the
next trim can take over. -/
structure Ready (s : MemState β) (i : Nat) : Prop where
  lt : i < s.nrDevs
  live : (s.devices i).stuck = false
  geometry : Geometry s.objSize s.tun.scullQuantum s.tun.scullQset

/-- A device that a write-only open has just trimmed holds nothing. -/
theorem Ready.trimmed (stale : Nat → Nat → β) (h : Ready s i) :
    ∃ t e, s.step stale (.openDev i .wronly {}) = some (t, e) ∧ Holds t i [] := by
  have hstep : s.step stale (.openDev i .wronly {}) = some
      ({ s with devices := Function.update s.devices i (scullTrim s.tun (s.devices i)).1 },
        { freed := (scullTrim s.tun (s.devices i)).2, ret := .done 0 }) := by
    simp [step, locked, h.lt, h.live]
  refine ⟨_, _, hstep, h.lt, [], ?_, rfl, fun _ => rfl⟩
  simpa using stores_log_trim h.geometry h.live

/-- The sizes of the requests are positive, and no read asks for bytes past the end of the file
positions. -/
structure Requests (bs : List β) (writes reads : Nat → Nat) : Prop where
  writes_pos : ∀ k, 0 < writes k
  reads_pos : ∀ k, 0 < reads k
  reads_lt : ∀ k, bs.length + reads k < 2 ^ 63

/-- A transfer: a write-only open, the writer with requests of the sizes `writes`, and the reader
with requests of the sizes `reads`. Its result is what the reader has got, and `dev->len`. -/
def transfer (stale : Nat → Nat → β) (s : MemState β) (i : Nat) (bs : List β)
    (writes reads : Nat → Nat) (fuel : Nat) : Option (List β × Nat) := do
  let (t, _) ← s.step stale (.openDev i .wronly {})
  let u ← writeAll (put stale i) writes fuel 0 t 0 bs
  let (_, got) ← readAll (get stale i) reads fuel 0 u 0
  pure (got, (u.devices i).len)

/-- The reader gets what was written. The writer needs at most one request for each byte, and the
reader one more. -/
theorem Ready.transfer_eq {writes reads : Nat → Nat} {fuel : Nat} (h : Ready s i)
    (hsizes : Requests bs writes reads) (hfuel : bs.length < fuel) :
    transfer stale s i bs writes reads fuel = some (bs, bs.length) := by
  have hbound : bs.length < 2 ^ 63 := (Nat.le_add_right _ _).trans_lt (hsizes.reads_lt 0)
  obtain ⟨t, e, hopen, ht⟩ := h.trimmed stale
  have hwrites : ∃ u, writeAll (put stale i) writes fuel 0 t 0 bs = some u ∧ Holds u i ([] ++ bs) :=
    write_all_eq (I := fun s done => Holds s i done) hsizes.writes_pos
      (fun s done data hs hdata hle => hs.write stale hdata (by omega)) fuel 0 ht
      (Nat.le_of_eq (Nat.zero_add _)) hfuel.le
  obtain ⟨u, hwrite, hu⟩ := hwrites
  have hreads : ∃ v, readAll (get stale i) reads fuel 0 u 0 = some (v, bs.drop 0) := by
    refine read_all_eq (I := fun s => Holds s i bs) (fun k s pos hs hpos => ?_) fuel 0 hu
      (Nat.zero_le _) (by omega)
    have hlt := hsizes.reads_lt k
    exact hs.read stale hpos (hsizes.reads_pos k) (by omega)
  obtain ⟨v, hread⟩ := hreads
  rw [List.nil_append] at hu
  simp only [transfer, hopen, hwrite, hread, bind, Option.bind_some, pure, hu.len, List.drop_zero]

/-- Chunks and geometry do not show. On every device, with every geometry, for all sizes of the
requests and whatever the cache objects contain, the writer and the reader end, the reader has got
exactly the bytes written, and `dev->len` is their number. So no two transfers can be told apart. -/
theorem transfer_independent (bs : List β) (stale stale' : Nat → Nat → β) (s s' : MemState β)
    (i i' : Nat) (h : Ready s i) (h' : Ready s' i') (writes reads writes' reads' : Nat → Nat)
    (hsizes : Requests bs writes reads) (hsizes' : Requests bs writes' reads') (fuel fuel' : Nat)
    (hfuel : bs.length < fuel) (hfuel' : bs.length < fuel') :
    transfer stale s i bs writes reads fuel = some (bs, bs.length) ∧
      transfer stale' s' i' bs writes' reads' fuel' = transfer stale s i bs writes reads fuel := by
  have heq : transfer stale s i bs writes reads fuel = some (bs, bs.length) :=
    h.transfer_eq hsizes hfuel
  refine ⟨heq, ?_⟩
  rw [heq]
  exact h'.transfer_eq hsizes' hfuel'

/-- Eight bytes through quanta of four, two to a set, and through quanta of three, one to a set. -/
theorem transfer_independent_eight_bytes :
    ∃ bs : List UInt8, bs.length = 8 ∧
      transfer (fun _ _ => 0) (init ⟨4, 2, 4000⟩ 1) 0 bs (fun k => k + 1) (fun _ => 3) 9 =
        some (bs, 8) ∧
      transfer (fun _ _ => 1) (init ⟨3, 1, 4000⟩ 2) 1 bs (fun _ => 5) (fun k => k % 2 + 1) 20 =
        transfer (fun _ _ => 0) (init ⟨4, 2, 4000⟩ 1) 0 bs (fun k => k + 1) (fun _ => 3) 9 := by
  refine ⟨[1, 2, 3, 4, 5, 6, 7, 8], rfl, ?_⟩
  exact transfer_independent _ _ _ _ _ 0 1
    ⟨by decide, rfl, by decide, by decide, by decide, by decide⟩
    ⟨by decide, rfl, by decide, by decide, by decide, by decide⟩ _ _ _ _
    ⟨fun k => Nat.succ_pos k, fun _ => by decide, fun _ => by decide⟩
    ⟨fun _ => by decide, fun k => Nat.succ_pos _, fun k => by simp only [List.length]; omega⟩
    9 20 (by decide) (by decide)

end MemState

end Ldd3.Scull
