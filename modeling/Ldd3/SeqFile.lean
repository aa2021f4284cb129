import Ldd3.Kernel
import Ldd3.Machine

/-!
# Sequence files

The kernel's `seq_file`, through which a module prints a list of records into a file. `seq_read`
is a machine whose steps end where a record is printed, so that anything may happen between two
records, and a reader asks for any number of bytes at a time. The position of the file is left to
`seq_read`: there is no seek.

`Follows.step` is what a module may rely on if its iterator is lawful. What the reader has got so
far is the beginning of the records in order, each of them complete and as it was printed at one
moment, and a read of at least one byte that returns nothing has come to the end of the last one.
`rank_lt` says that a read does return.
-/

namespace Ldd3.Seq

variable {ω ρ : Type*}

/-- The operations of a sequence file. A record is printed in pieces, one for each `seq_printf`,
unless an error comes instead; a record that is never printed keeps the reader waiting. -/
structure Ops (ω ρ : Type*) where
  start : Nat → Option ρ
  next : ρ → Nat → Option ρ × Nat
  print : ω → ρ → Option (Except Errno (List (List UInt8)))

/-- The iterator goes from one position to the next. -/
def Ops.Lawful (ops : Ops ω ρ) : Prop :=
  ∀ i p, ops.start i = some p → ops.next p i = (ops.start (i + 1), i + 1)

/-- An open file: `index`, the `size` of the buffer or 0 if there is none, the `count` bytes of it
that are waiting for the reader, and the position of the reader. -/
structure File where
  index : Nat
  size : Nat
  pending : List UInt8
  pos : Nat
  deriving DecidableEq, Repr

/-- Where a read is: it asks for `want` bytes more, it has copied some, and it is about to print a
record. It prints into an empty buffer at first and then behind what it has printed. -/
inductive Control (ρ : Type*) where
  | idle
  | first (want : Nat) (copied : List UInt8) (record : ρ)
  | fill (want : Nat) (copied : List UInt8) (record : ρ)
  deriving DecidableEq, Repr

/-- A file and its reader. -/
structure State (ρ : Type*) where
  file : File
  control : Control ρ
  deriving DecidableEq, Repr

/-- What a read returns, once it does. -/
abbrev Result := Option (Except Errno (List UInt8))

/-- `seq_printf`: the bytes in the buffer, unless it has overflowed. -/
def printf (size : Nat) (buf : Option (List UInt8)) (piece : List UInt8) : Option (List UInt8) :=
  buf.bind fun bytes =>
    if bytes.length + piece.length < size then some (bytes ++ piece) else none

/-- The label `Done`. -/
def done (m : File) (copied : List UInt8) (err : Option Errno) : State ρ × Result :=
  match copied, err with
  | [], some err => (⟨m, .idle⟩, some (.error err))
  | copied, _ => (⟨{ m with pos := m.pos + copied.length }, .idle⟩, some (.ok copied))

/-- The test of the first loop: without a record the read is at the end. -/
def enter (m : File) (want : Nat) (copied : List UInt8) : Option ρ → State ρ × Result
  | some p => (⟨m, .first want copied p⟩, none)
  | none => done { m with pending := [] } copied none

/-- The copy behind the second loop. -/
def flush (m : File) (want : Nat) (copied : List UInt8) (fault : Bool) : State ρ × Result :=
  if fault then done m copied (some .EFAULT)
  else
    let n := min m.pending.length want
    done { m with pending := m.pending.drop n } (copied ++ m.pending.take n) none

section Steps

variable (ops : Ops ω ρ)

/-- The second loop goes to the next record. -/
def more (m : File) (want : Nat) (copied : List UInt8) (p : ρ) (fault : Bool) : State ρ × Result :=
  let (p, index) := ops.next p m.index
  let m := { m with index := index }
  match p with
  | none => flush m want copied fault
  | some p =>
      if m.pending.length ≥ want then flush m want copied fault
      else (⟨m, .fill want copied p⟩, none)

/-- A read from position 0 starts with the first record. -/
def rewind (m : File) : File := if m.pos = 0 then { m with index := 0, pending := [] } else m

/-- A file without a buffer gets one of a page. -/
def grab (m : File) : File := if m.size = 0 then { m with size := 4096 } else m

/-- `seq_read` with a buffer, up to the first record. -/
def readBuffered (m : File) (count : Nat) (fault : Bool) : State ρ × Result :=
  if m.pending = [] then enter m count [] (ops.start m.index)
  else if fault then done m [] (some .EFAULT)
  else
    let n := min m.pending.length count
    let copied := m.pending.take n
    let m := { m with pending := m.pending.drop n }
    if count - n = 0 then done m copied none
    else enter m (count - n) copied (ops.start m.index)

/-- `seq_read` up to the first record: `alloc` is the outcome of the allocation of the buffer. -/
def read (m : File) (count : Nat) (alloc fault : Bool) : State ρ × Result :=
  if (rewind m).size = 0 ∧ alloc = false then done (rewind m) [] (some .ENOMEM)
  else readBuffered ops (grab (rewind m)) count fault

/-- The first loop with a record printed; a buffer that is too small is replaced by a larger one. -/
def printFirst (m : File) (want : Nat) (copied : List UInt8) (p : ρ) (alloc fault : Bool) :
    Except Errno (List (List UInt8)) → State ρ × Result
  | .error err => done { m with pending := [] } copied (some err)
  | .ok pieces =>
      match pieces.foldl (printf m.size) (some []) with
      | some [] =>
          let (p, index) := ops.next p m.index
          enter { m with index := index } want copied p
      | some bytes => more ops { m with pending := bytes } want copied p fault
      | none =>
          if alloc then
            enter { m with size := 2 * m.size, pending := [] } want copied (ops.start m.index)
          else done { m with size := 0, pending := [] } copied (some .ENOMEM)

/-- The second loop with a record printed; one that does not fit is printed again by a later
read. -/
def printMore (m : File) (want : Nat) (copied : List UInt8) (p : ρ) (fault : Bool) :
    Except Errno (List (List UInt8)) → State ρ × Result
  | .error _ => flush m want copied fault
  | .ok pieces =>
      match pieces.foldl (printf m.size) (some m.pending) with
      | some bytes => more ops { m with pending := bytes } want copied p fault
      | none => flush m want copied fault

/-- A read starts, or the record at which it is gets printed in the world as it is. -/
inductive Action (ω : Type*) where
  | read (count : Nat) (alloc fault : Bool)
  | print (world : ω) (alloc fault : Bool)

/-- One step; a file has one reader at a time. -/
def step (s : State ρ) : Action ω → Option (State ρ × Result)
  | .read count alloc fault =>
      match s.control with
      | .idle => some (read ops s.file count alloc fault)
      | _ => none
  | .print w alloc fault =>
      match s.control with
      | .idle => none
      | .first want copied p =>
          (ops.print w p).map (printFirst ops s.file want copied p alloc fault)
      | .fill want copied p => (ops.print w p).map (printMore ops s.file want copied p fault)

/-- A file that has just been opened. -/
def State.init : State ρ := ⟨⟨0, 0, [], 0⟩, .idle⟩

end Steps

/-! ## What the reader gets -/

section Printf

variable {size : Nat}

/-- Once a buffer has overflowed it stays so. -/
theorem foldl_printf_none (pieces : List (List UInt8)) :
    pieces.foldl (printf size) none = none := by
  induction pieces with
  | nil => rfl
  | cons piece rest ih => exact ih

/-- The pieces are in the buffer if all of them fit. -/
theorem foldl_printf (pieces : List (List UInt8)) {bytes : List UInt8} (h : bytes.length < size) :
    pieces.foldl (printf size) (some bytes) =
      if bytes.length + pieces.flatten.length < size then some (bytes ++ pieces.flatten)
      else none := by
  induction pieces generalizing bytes with
  | nil => simp [h]
  | cons piece rest ih =>
      rw [List.foldl_cons, List.flatten_cons, List.length_append]
      show List.foldl _ (if bytes.length + piece.length < size then some (bytes ++ piece) else none)
        rest = _
      split
      · rename_i hfits
        rw [← List.length_append] at hfits
        rw [ih hfits, List.length_append, List.append_assoc, Nat.add_assoc]
      · rename_i hlong
        rw [foldl_printf_none, if_neg (by omega)]

end Printf

/-- The text of the first records, each as it was printed in one world. -/
inductive Ops.Printed (ops : Ops ω ρ) : List ω → List UInt8 → Prop where
  | nil : ops.Printed [] []
  | snoc {ws : List ω} {text : List UInt8} {w : ω} {p : ρ} {pieces : List (List UInt8)} :
      ops.Printed ws text → ops.start ws.length = some p → ops.print w p = some (.ok pieces) →
      ops.Printed (ws ++ [w]) (text ++ pieces.flatten)

/-- The records before `index` have been printed in some of the worlds, in their order. -/
def Ops.Covers (ops : Ops ω ρ) (worlds : List ω) (index : Nat) (text : List UInt8) : Prop :=
  ∃ ws, ws.Sublist worlds ∧ ws.length = index ∧ ops.Printed ws text

/-- What a read has copied before it returns. -/
def Control.copied : Control ρ → List UInt8
  | idle => []
  | first _ copied _ | fill _ copied _ => copied

/-- How many bytes it still asks for. -/
def Control.want : Control ρ → Nat
  | idle => 0
  | first want _ _ | fill want _ _ => want

/-- A read in progress is at the record of `index`, and its buffer has not overflowed. -/
def Control.Ready (ops : Ops ω ρ) (m : File) : Control ρ → Prop
  | idle => True
  | first _ _ p => ops.start m.index = some p ∧ m.pending = [] ∧ 0 < m.size
  | fill _ _ p => ops.start m.index = some p ∧ m.pending ≠ [] ∧ m.pending.length < m.size

/-- The bytes a step hands to the reader. -/
def Result.bytes : Result → List UInt8
  | some (.ok bytes) => bytes
  | _ => []

/-- The reader has `got`, and with what it will find in the buffer these are the first records. -/
structure Delivers (ops : Ops ω ρ) (worlds : List ω) (got : List UInt8) (s : State ρ) : Prop where
  pos : s.file.pos = got.length
  covers : ops.Covers worlds s.file.index (got ++ (s.control.copied ++ s.file.pending))
  ready : s.control.Ready ops s.file

/-- There is nothing left for the reader. -/
structure AtEnd (ops : Ops ω ρ) (s : State ρ) : Prop where
  idle : s.control = .idle
  pending : s.file.pending = []
  start : ops.start s.file.index = none

/-- What a step leaves that works for a read of `want` bytes. -/
structure Post (ops : Ops ω ρ) (worlds : List ω) (got : List UInt8) (want : Nat)
    (r : State ρ × Result) : Prop where
  delivers : Delivers ops worlds (got ++ r.2.bytes) r.1
  wants : 1 ≤ want → r.1.control = .idle ∨ 1 ≤ r.1.control.want
  ends : 1 ≤ want → r.2 = some (.ok []) → AtEnd ops r.1

/-- The worlds in which an action prints. -/
def Action.worlds : Action ω → List ω
  | read .. => []
  | print w .. => [w]

/-- The number of bytes that a read asks for. -/
def Action.count : Action ω → Option Nat
  | read count _ _ => some count
  | print .. => none

/-- The last read asks for something. -/
def LastPositive (history : List (Action ω × Result)) : Prop :=
  ∃ count, (history.filterMap fun w => w.1.count).getLast? = some count ∧ 1 ≤ count

/-- The number of bytes an action works for. -/
def Action.want (s : State ρ) : Action ω → Nat
  | read count _ _ => count
  | print .. => s.control.want

section Invariant

variable {ops : Ops ω ρ} {worlds : List ω} {got copied text : List UInt8} {want index : Nat}
  {m : File} {p : ρ}

/-- Later worlds do not matter. -/
theorem Ops.Covers.append (h : ops.Covers worlds index text) (ws : List ω) :
    ops.Covers (worlds ++ ws) index text := by
  obtain ⟨vs, hsub, hlen, hprinted⟩ := h
  exact ⟨vs, hsub.trans (List.sublist_append_left _ _), hlen, hprinted⟩

/-- Nothing has been printed of the first record. -/
theorem covers_nil : ops.Covers worlds 0 [] :=
  ⟨[], List.nil_sublist _, rfl, .nil⟩

/-- The next record has been printed. -/
theorem Ops.Covers.snoc {w : ω} {pieces : List (List UInt8)} (h : ops.Covers worlds index text)
    (hstart : ops.start index = some p) (hprint : ops.print w p = some (.ok pieces)) :
    ops.Covers (worlds ++ [w]) (index + 1) (text ++ pieces.flatten) := by
  obtain ⟨ws, hsub, rfl, hprinted⟩ := h
  exact ⟨ws ++ [w], hsub.append (.refl _), List.length_append, hprinted.snoc hstart hprint⟩

/-- A read returns. -/
theorem post_done {err : Option Errno} (hpos : m.pos = got.length)
    (hcovers : ops.Covers worlds m.index (got ++ (copied ++ m.pending)))
    (hend : 1 ≤ want → copied = [] → err = none → m.pending = [] ∧ ops.start m.index = none) :
    Post ops worlds got want (done m copied err) := by
  have hreturned (bytes : List UInt8) (hbytes : bytes = copied) :
      Delivers ops worlds (got ++ bytes)
        ⟨{ m with pos := m.pos + bytes.length }, (.idle : Control ρ)⟩ := by
    subst hbytes
    refine ⟨?_, ?_, trivial⟩
    · show m.pos + bytes.length = _
      rw [hpos, List.length_append]
    · show ops.Covers worlds m.index (got ++ bytes ++ ([] ++ m.pending))
      rwa [List.nil_append, List.append_assoc]
  cases copied with
  | nil =>
      cases err with
      | some err =>
          refine ⟨⟨?_, ?_, trivial⟩, fun _ => .inl rfl, nofun⟩
          · show m.pos = (got ++ []).length
            rwa [List.append_nil]
          · show ops.Covers worlds m.index (got ++ [] ++ ([] ++ m.pending))
            rwa [List.append_nil]
      | none =>
          refine ⟨hreturned [] rfl, fun _ => .inl rfl, fun hwant _ => ?_⟩
          obtain ⟨hpending, hstart⟩ := hend hwant rfl rfl
          exact ⟨rfl, hpending, hstart⟩
  | cons byte rest =>
      refine ⟨hreturned _ rfl, fun _ => .inl rfl, fun _ heq => ?_⟩
      cases heq

/-- A read comes to the first loop. -/
theorem post_enter (hpos : m.pos = got.length)
    (hcovers : ops.Covers worlds m.index (got ++ copied)) (hpending : m.pending = [])
    (hsize : 0 < m.size) :
    Post ops worlds got want (enter m want copied (ops.start m.index)) := by
  cases hstart : ops.start m.index with
  | some p =>
      refine ⟨⟨?_, ?_, hstart, hpending, hsize⟩, fun hwant => .inr hwant, fun _ => nofun⟩
      · show m.pos = (got ++ []).length
        rwa [List.append_nil]
      · show ops.Covers worlds m.index (got ++ [] ++ (copied ++ m.pending))
        rwa [hpending, List.append_nil, List.append_nil]
  | none =>
      refine post_done hpos ?_ fun _ _ _ => ⟨rfl, hstart⟩
      show ops.Covers worlds m.index (got ++ (copied ++ []))
      rwa [List.append_nil]

/-- The buffer goes to the reader as far as it is asked for. -/
theorem post_flush {fault : Bool} (hpos : m.pos = got.length)
    (hcovers : ops.Covers worlds m.index (got ++ (copied ++ m.pending)))
    (hpending : m.pending ≠ []) :
    Post ops worlds got want (flush m want copied fault) := by
  unfold flush
  split
  · exact post_done hpos hcovers fun _ _ => nofun
  · refine post_done hpos ?_ fun hwant hnil _ => ?_
    · show ops.Covers worlds m.index (got ++ (copied ++ m.pending.take _ ++ m.pending.drop _))
      rwa [List.append_assoc, List.take_append_drop]
    · have hlen : 0 < m.pending.length := List.length_pos_iff.mpr hpending
      have hzero := congrArg List.length hnil
      rw [List.length_append, List.length_take, List.length_nil] at hzero
      omega

/-- The second loop goes on. -/
theorem post_more {fault : Bool} (hops : ops.Lawful) (hpos : m.pos = got.length)
    (hstart : ops.start m.index = some p)
    (hcovers : ops.Covers worlds (m.index + 1) (got ++ (copied ++ m.pending)))
    (hpending : m.pending ≠ []) (hsize : m.pending.length < m.size) :
    Post ops worlds got want (more ops m want copied p fault) := by
  rw [more, hops m.index p hstart]
  dsimp only
  cases hnext : ops.start (m.index + 1) with
  | none => exact post_flush hpos hcovers hpending
  | some p =>
      show Post ops worlds got want (if m.pending.length ≥ want then _ else _)
      split
      · exact post_flush hpos hcovers hpending
      · refine ⟨⟨?_, ?_, hnext, hpending, hsize⟩, fun hwant => .inr hwant, fun _ => nofun⟩
        · show m.pos = (got ++ []).length
          rwa [List.append_nil]
        · show ops.Covers worlds (m.index + 1) (got ++ [] ++ (copied ++ m.pending))
          rwa [List.append_nil]

/-- A read finds its buffer. -/
theorem post_read_buffered {count : Nat} {fault : Bool} (hpos : m.pos = got.length)
    (hcovers : ops.Covers worlds m.index (got ++ m.pending)) (hsize : 0 < m.size) :
    Post ops worlds got count (readBuffered ops m count fault) := by
  unfold readBuffered
  by_cases hnil : m.pending = []
  · rw [if_pos hnil]
    refine post_enter hpos ?_ hnil hsize
    rwa [hnil] at hcovers
  rw [if_neg hnil]
  cases fault with
  | true =>
      rw [if_pos rfl]
      exact post_done hpos hcovers fun _ _ => nofun
  | false =>
      have hlen : 0 < m.pending.length := List.length_pos_iff.mpr hnil
      rw [if_neg (by decide)]
      dsimp only
      split
      · refine post_done hpos ?_ fun hwant htake => ?_
        · show ops.Covers worlds m.index (got ++ (m.pending.take _ ++ m.pending.drop _))
          rwa [List.take_append_drop]
        · have hzero := congrArg List.length htake
          rw [List.length_take, List.length_nil] at hzero
          omega
      · rename_i hrest
        have hall : m.pending.length ≤ min m.pending.length count := by omega
        have hpost : Post ops worlds got (count - min m.pending.length count)
            (enter { m with pending := m.pending.drop (min m.pending.length count) }
              (count - min m.pending.length count) (m.pending.take (min m.pending.length count))
              (ops.start m.index)) := by
          refine post_enter hpos ?_ (List.drop_eq_nil_of_le hall) hsize
          rwa [List.take_of_length_le hall]
        exact ⟨hpost.delivers, fun _ => hpost.wants (by omega), fun _ => hpost.ends (by omega)⟩

/-- A reader at position 0 has got nothing. -/
theorem rewind_covers (hpos : m.pos = got.length)
    (hcovers : ops.Covers worlds m.index (got ++ m.pending)) :
    (rewind m).pos = got.length ∧
      ops.Covers worlds (rewind m).index (got ++ (rewind m).pending) := by
  unfold rewind
  split
  · rename_i hzero
    obtain rfl : got = [] := List.eq_nil_of_length_eq_zero (hpos.symm.trans hzero)
    exact ⟨hpos, covers_nil⟩
  · exact ⟨hpos, hcovers⟩

/-- A read starts. -/
theorem post_read {count : Nat} {alloc fault : Bool}
    (h : Delivers ops worlds got (⟨m, .idle⟩ : State ρ)) :
    Post ops worlds got count (read ops m count alloc fault) := by
  obtain ⟨hpos, hcovers⟩ := rewind_covers h.pos h.covers
  unfold read
  split
  · exact post_done hpos hcovers fun _ _ => nofun
  · unfold grab
    split
    · exact post_read_buffered hpos hcovers (Nat.succ_pos _)
    · rename_i hsize
      exact post_read_buffered hpos hcovers (Nat.pos_of_ne_zero hsize)

/-- A record is printed into an empty buffer. -/
theorem post_print_first {w : ω} {alloc fault : Bool} {r : Except Errno (List (List UInt8))}
    (hops : ops.Lawful)
    (h : Delivers ops worlds got ⟨m, .first want copied p⟩) (hprint : ops.print w p = some r) :
    Post ops (worlds ++ [w]) got want (printFirst ops m want copied p alloc fault r) := by
  obtain ⟨hpos, hcovers, hstart, hpending, hsize⟩ := h
  replace hpos : m.pos = got.length := hpos
  replace hcovers : ops.Covers worlds m.index (got ++ copied) := by
    have hsame : got ++ (copied ++ m.pending) = got ++ copied := by rw [hpending, List.append_nil]
    exact hsame ▸ hcovers
  cases r with
  | error err =>
      refine post_done hpos ?_ fun _ _ => nofun
      show ops.Covers _ m.index (got ++ (copied ++ []))
      rw [List.append_nil]
      exact hcovers.append [w]
  | ok pieces =>
      have hnext := hcovers.snoc hstart hprint
      unfold printFirst
      dsimp only
      rw [foldl_printf pieces hsize]
      by_cases hfits : ([] : List UInt8).length + pieces.flatten.length < m.size
      · rw [if_pos hfits]
        cases htext : pieces.flatten with
        | nil =>
            show Post _ _ _ _ (enter { m with index := (ops.next p m.index).2 } want copied
              (ops.next p m.index).1)
            rw [hops m.index p hstart]
            rw [htext, List.append_nil] at hnext
            exact post_enter hpos hnext hpending hsize
        | cons byte rest =>
            rw [htext] at hfits
            refine post_more hops hpos hstart ?_ nofun (by simpa using hfits)
            rw [htext] at hnext
            show ops.Covers _ (m.index + 1) (got ++ (copied ++ ([] ++ byte :: rest)))
            rwa [List.nil_append, ← List.append_assoc]
      · rw [if_neg hfits]
        cases alloc with
        | true =>
            have hdouble : 0 < 2 * m.size := Nat.mul_pos Nat.two_pos hsize
            exact post_enter (m := { m with size := 2 * m.size, pending := [] }) hpos
              (hcovers.append [w]) rfl hdouble
        | false =>
            refine post_done hpos ?_ fun _ _ => nofun
            show ops.Covers _ m.index (got ++ (copied ++ []))
            rw [List.append_nil]
            exact hcovers.append [w]

/-- A record is printed behind the others. -/
theorem post_print_more {w : ω} {fault : Bool} {r : Except Errno (List (List UInt8))}
    (hops : ops.Lawful)
    (h : Delivers ops worlds got ⟨m, .fill want copied p⟩) (hprint : ops.print w p = some r) :
    Post ops (worlds ++ [w]) got want (printMore ops m want copied p fault r) := by
  obtain ⟨hpos, hcovers, hstart, hpending, hsize⟩ := h
  cases r with
  | error err => exact post_flush hpos (hcovers.append [w]) hpending
  | ok pieces =>
      have hnext := hcovers.snoc hstart hprint
      unfold printMore
      dsimp only
      rw [foldl_printf pieces hsize]
      by_cases hfits : m.pending.length + pieces.flatten.length < m.size
      · rw [if_pos hfits]
        refine post_more hops hpos hstart ?_ ?_ ?_
        · show ops.Covers _ (m.index + 1) (got ++ (copied ++ (m.pending ++ pieces.flatten)))
          rwa [← List.append_assoc copied, ← List.append_assoc got]
        · exact List.append_ne_nil_of_left_ne_nil hpending _
        · show (m.pending ++ pieces.flatten).length < m.size
          rwa [List.length_append]
      · rw [if_neg hfits]
        exact post_flush hpos (hcovers.append [w]) hpending

/-- One step. -/
theorem post_step {s : State ρ} {a : Action ω} {r : State ρ × Result} (hops : ops.Lawful)
    (h : Delivers ops worlds got s) (hstep : step ops s a = some r) :
    Post ops (worlds ++ a.worlds) got (a.want s) r := by
  obtain ⟨m, c⟩ := s
  cases a with
  | read count alloc fault =>
      cases c with
      | idle =>
          cases hstep
          show Post ops (worlds ++ []) got count _
          rw [List.append_nil]
          exact post_read h
      | first want copied p => cases hstep
      | fill want copied p => cases hstep
  | print w alloc fault =>
      cases c with
      | idle => cases hstep
      | first want copied p =>
          obtain ⟨res, hprint, rfl⟩ := Option.map_eq_some_iff.mp hstep
          exact post_print_first hops h hprint
      | fill want copied p =>
          obtain ⟨res, hprint, rfl⟩ := Option.map_eq_some_iff.mp hstep
          exact post_print_more hops h hprint

end Invariant

/-! ## Whole runs -/

section Runs

variable {ops : Ops ω ρ}

/-- What a reader knows after a history of steps. -/
structure Follows (ops : Ops ω ρ) (s : State ρ) (history : List (Action ω × Result)) : Prop where
  delivers : Delivers ops (history.flatMap fun w => w.1.worlds)
    (history.flatMap fun w => w.2.bytes) s
  wants : LastPositive history → s.control = .idle ∨ 1 ≤ s.control.want
  ends : LastPositive history → history.getLast?.map Prod.snd = some (some (.ok [])) → AtEnd ops s

/-- The file has just been opened. -/
theorem follows_init : Follows ops State.init [] where
  delivers := ⟨rfl, covers_nil, trivial⟩
  wants _ := .inl rfl
  ends _ := nofun

/-- A step works for the last read. -/
theorem Follows.one_le_want {s : State ρ} {a : Action ω} {r : State ρ × Result}
    {history : List (Action ω × Result)} (hs : Follows ops s history)
    (hstep : Seq.step ops s a = some r) (hpos : LastPositive (history ++ [(a, r.2)])) :
    1 ≤ a.want s := by
  obtain ⟨count, hlast, hcount⟩ := hpos
  rw [List.filterMap_append] at hlast
  cases a with
  | read count' alloc fault =>
      rw [show [(Action.read count' alloc fault, r.2)].filterMap (fun w => w.1.count) = [count']
        from rfl, List.getLast?_concat] at hlast
      cases hlast
      exact hcount
  | print w alloc fault =>
      rw [show [(Action.print w alloc fault, r.2)].filterMap (fun w => w.1.count) = [] from rfl,
        List.append_nil] at hlast
      rcases hs.wants ⟨count, hlast, hcount⟩ with hidle | hwant
      · rw [Seq.step, hidle] at hstep
        cases hstep
      · exact hwant

/-- What the reader gets with every step: the records in order, each complete and as it was printed
in one of the worlds, and the end only behind the last one. -/
theorem Follows.step {s t : State ρ} {a : Action ω} {r : Result}
    {history : List (Action ω × Result)} (hops : ops.Lawful) (hs : Follows ops s history)
    (hstep : Seq.step ops s a = some (t, r)) : Follows ops t (history ++ [(a, r)]) := by
  have hpost := post_step hops hs.delivers hstep
  refine ⟨?_, fun hpos => hpost.wants (hs.one_le_want hstep hpos), fun hpos hlast => ?_⟩
  · simpa using hpost.delivers
  · refine hpost.ends (hs.one_le_want hstep hpos) ?_
    simpa using hlast

variable {n bound : Nat}

/-- How many records a read may still print: no record has `bound` bytes, there are `n` of them, and
a buffer that is too small grows. -/
def State.rank (n bound : Nat) (s : State ρ) : Nat :=
  match s.control with
  | .idle => 0
  | .first .. => (n - s.file.index) + (bound - s.file.size) + 1
  | .fill .. => (n - s.file.index) + 1

theorem State.rank_le (n bound : Nat) (s : State ρ) : s.rank n bound ≤ n + bound + 1 := by
  unfold rank
  split <;> omega

theorem done_idle (m : File) (copied : List UInt8) (err : Option Errno) :
    (done m copied err : State ρ × Result).1.control = .idle := by
  unfold done
  split <;> rfl

theorem flush_idle (m : File) (want : Nat) (copied : List UInt8) (fault : Bool) :
    (flush m want copied fault : State ρ × Result).1.control = .idle := by
  unfold flush
  split <;> exact done_idle _ _ _

/-- A state in which nothing is being read has the least rank. -/
theorem rank_of_idle {s : State ρ} (h : s.control = .idle) : s.rank n bound = 0 := by
  rw [State.rank, h]

/-- The first loop starts a round. -/
theorem rank_enter (n bound : Nat) (m : File) (want : Nat) (copied : List UInt8) (p : Option ρ) :
    (enter m want copied p).1.rank n bound ≤ (n - m.index) + (bound - m.size) + 1 := by
  cases p with
  | some p => exact Nat.le_refl _
  | none =>
      rw [enter, rank_of_idle (done_idle _ _ _)]
      exact Nat.zero_le _

/-- The second loop starts a round. -/
theorem rank_more (n bound : Nat) {m : File} {p : ρ} (hops : ops.Lawful)
    (hstart : ops.start m.index = some p) (want : Nat) (copied : List UInt8) (fault : Bool) :
    (more ops m want copied p fault).1.rank n bound ≤ (n - (m.index + 1)) + 1 := by
  rw [more, hops m.index p hstart]
  dsimp only
  cases ops.start (m.index + 1) with
  | none =>
      rw [rank_of_idle (flush_idle _ _ _ _)]
      exact Nat.zero_le _
  | some p =>
      dsimp only
      split
      · rw [rank_of_idle (flush_idle _ _ _ _)]
        exact Nat.zero_le _
      · exact Nat.le_refl _

section Rank

variable {m : File} {p : ρ} {r : Except Errno (List (List UInt8))} (hops : ops.Lawful)
  (hstart : ops.start m.index = some p) (hlt : m.index < n)
  (hbound : ∀ pieces, r = .ok pieces → pieces.flatten.length < bound)

include hops hstart hlt hbound

/-- A round of the first loop: the record fits, or the buffer gets larger. -/
theorem rank_print_first (want : Nat) (copied : List UInt8) (fault : Bool) (hsize : 0 < m.size) :
    (printFirst ops m want copied p true fault r).1.rank n bound <
      (n - m.index) + (bound - m.size) + 1 := by
  cases r with
  | error err =>
      rw [printFirst, rank_of_idle (done_idle _ _ _)]
      exact Nat.succ_pos _
  | ok pieces =>
      have hshort := hbound pieces rfl
      rw [printFirst, foldl_printf pieces hsize]
      by_cases hfits : ([] : List UInt8).length + pieces.flatten.length < m.size
      · rw [if_pos hfits]
        cases pieces.flatten with
        | nil =>
            show (enter { m with index := (ops.next p m.index).2 } want copied
              (ops.next p m.index).1).1.rank n bound < _
            rw [hops m.index p hstart]
            have hround := rank_enter n bound { m with index := m.index + 1 } want copied
              (ops.start (m.index + 1))
            dsimp only at hround ⊢
            omega
        | cons byte rest =>
            have hround := rank_more n bound (m := { m with pending := byte :: rest })
              hops hstart want copied fault
            refine Nat.lt_of_le_of_lt hround ?_
            show (n - (m.index + 1)) + 1 < _
            omega
      · rw [if_neg hfits, List.length_nil, Nat.zero_add] at *
        have hround := rank_enter n bound
          { m with size := 2 * m.size, pending := [] } want copied (ops.start m.index)
        refine Nat.lt_of_le_of_lt hround ?_
        show (n - m.index) + (bound - 2 * m.size) + 1 < _
        omega

/-- A round of the second loop. -/
theorem rank_print_more (want : Nat) (copied : List UInt8) (fault : Bool)
    (hsize : m.pending.length < m.size) :
    (printMore ops m want copied p fault r).1.rank n bound < (n - m.index) + 1 := by
  cases r with
  | error err =>
      rw [printMore, rank_of_idle (flush_idle _ _ _ _)]
      exact Nat.succ_pos _
  | ok pieces =>
      rw [printMore, foldl_printf pieces hsize]
      by_cases hfits : m.pending.length + pieces.flatten.length < m.size
      · rw [if_pos hfits]
        have hround := rank_more n bound
          (m := { m with pending := m.pending ++ pieces.flatten }) hops hstart want copied fault
        refine Nat.lt_of_le_of_lt hround ?_
        show (n - (m.index + 1)) + 1 < _
        omega
      · rw [if_neg hfits, rank_of_idle (flush_idle _ _ _ _)]
        exact Nat.succ_pos _

end Rank

/-- A record printed brings a read closer to its end. -/
theorem rank_lt {s t : State ρ} {w : ω} {fault : Bool} {res : Result} (hops : ops.Lawful)
    (hend : ∀ i, n ≤ i → ops.start i = none)
    (hbound : ∀ p pieces, ops.start s.file.index = some p → ops.print w p = some (.ok pieces) →
      pieces.flatten.length < bound)
    (hready : s.control.Ready ops s.file)
    (hstep : step ops s (.print w true fault) = some (t, res)) :
    t.rank n bound < s.rank n bound := by
  obtain ⟨m, c⟩ := s
  have hindex : ∀ {p}, ops.start m.index = some p → m.index < n := by
    intro p hstart
    by_contra hle
    rw [hend m.index (Nat.le_of_not_lt hle)] at hstart
    cases hstart
  cases c with
  | idle => cases hstep
  | first want copied p =>
      obtain ⟨hstart, hpending, hsize⟩ := hready
      obtain ⟨r, hprint, heq⟩ := Option.map_eq_some_iff.mp hstep
      have hround := rank_print_first hops hstart (hindex hstart)
        (fun pieces hr => hbound p pieces hstart (hr ▸ hprint)) want copied fault hsize
      rw [heq] at hround
      exact hround
  | fill want copied p =>
      obtain ⟨hstart, hpending, hsize⟩ := hready
      obtain ⟨r, hprint, heq⟩ := Option.map_eq_some_iff.mp hstep
      have hround := rank_print_more hops hstart (hindex hstart)
        (fun pieces hr => hbound p pieces hstart (hr ▸ hprint)) want copied fault hsize
      rw [heq] at hround
      exact hround

/-- A read in progress goes on as soon as its record is printed. -/
theorem step_print_isSome {s : State ρ} (hready : s.control.Ready ops s.file) :
    s.control = .idle ∨ ∃ p, ops.start s.file.index = some p ∧ ∀ w alloc fault,
      (step ops s (.print w alloc fault)).isSome = (ops.print w p).isSome := by
  obtain ⟨m, c⟩ := s
  cases c with
  | idle => exact .inl rfl
  | first want copied p => exact .inr ⟨p, hready.1, fun _ _ _ => Option.isSome_map⟩
  | fill want copied p => exact .inr ⟨p, hready.1, fun _ _ _ => Option.isSome_map⟩

end Runs

end Ldd3.Seq
