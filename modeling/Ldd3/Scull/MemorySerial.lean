import Ldd3.LockRules
import Ldd3.Scull.Calls
import Ldd3.Scull.IoctlForms
import Ldd3.Scull.MemoryTrim
import Ldd3.Scull.Proc

/-!
# The calls on a memory device, statement by statement

`MemState.step` takes every call on a memory device as one step. Here the calls run statement by
statement, as the programs of `Calls` say, any number of them at a time on one device, and an ioctl,
which takes no lock and is one step, may come in between any two statements. `mem_verified` says
that every call has its precondition against the atomic machine, as long as `scull_qset` keeps its
default: a read or a write executes its action when it drops the lock, and `scull_open` when
`__scull_trim` reads the quantum.
-/

namespace Ldd3.Scull

open Calls

variable {β : Type}

/-- What the calls on a device share: the device, the tunables and the number of allocations. -/
structure MemShared (β : Type) where
  dev : ScullDev β
  tun : Tunables
  next : Nat

/-- How a call on a device finds what is shared. -/
def memSharing : Sharing (MemCall β) (MemEnv β) (MemShared β) (MemChoice β) where
  world := memWorld
  get c := ⟨c.dev, c.tun, c.next⟩
  put g c := { c with dev := g.dev, tun := g.tun, next := g.next }
  env g ch := ⟨g.dev, g.tun, g.next, ch⟩
  get_put _ _ := rfl
  put_get _ := rfl
  put_put _ _ _ := rfl
  others_env _ _ _ := rfl

/-- A call on a device. The file layer refuses positions from `2 ^ 63` on. -/
inductive MemRequest (β : Type) where
  | open_ (mode : AccMode)
  | read (pos count : Nat) (fits : pos + count < 2 ^ 63)
  | write (pos : Nat) (data : List β) (fits : pos + data.length < 2 ^ 63)
  | seqShow

/-- `__scull_trim`, with each access to a tunable as a statement of its own. The loop that frees the
nodes changes nothing that a call without the lock could see. -/
def trimStatements : MemProg β :=
  .block [
    .assertHeld,
    update fun c => { c with dev.len := 0 },
    update fun c => { c with dev.quantumLen := c.tun.scullQuantum },
    update fun c => { c with dev.qsetLen := c.tun.scullQset },
    update fun c => { c with dev.qset := [] }]

/-- `scull_open` with these statements. -/
def openStatements : MemProg β :=
  .block [
    .ite .plain (fun c _ => c.mode == .wronly)
      (.block [lockOrRestart, trimStatements, .unlock]) .skip,
    .ret true fun c _ => { c with ssret := .ok 0 }]

namespace MemRequest

/-- The program of a call. -/
def prog (stale : Nat → Nat → β) : MemRequest β → MemProg β
  | open_ _ => openStatements
  | read _ _ _ => MemFn.read.prog stale
  | write _ _ _ => MemFn.write.prog stale
  | seqShow => MemFn.seqShow.prog stale

/-- The data of a call at its start, before it looks at the device. -/
def data : MemRequest β → MemCall β
  | open_ mode => ⟨⟨[], 0, 0, 0, false⟩, ⟨0, 0, 0⟩, 0, mode, [], 0, 0, ⟨0, 0, 0⟩, .ok 0, none⟩
  | read pos count _ =>
      ⟨⟨[], 0, 0, 0, false⟩, ⟨0, 0, 0⟩, 0, .rdonly, [], pos, count, ⟨0, 0, 0⟩, .ok 0, none⟩
  | write pos data _ =>
      ⟨⟨[], 0, 0, 0, false⟩, ⟨0, 0, 0⟩, 0, .wronly, data, pos, data.length, ⟨0, 0, 0⟩, .ok 0,
        none⟩
  | seqShow => ⟨⟨[], 0, 0, 0, false⟩, ⟨0, 0, 0⟩, 0, .rdonly, [], 0, 0, ⟨0, 0, 0⟩, .ok 0, none⟩

end MemRequest

/-- The calls on one device, statement by statement, with ioctls in between. -/
def memSystem (stale : Nat → Nat → β) :
    LockSystem (MemRequest β) (MemCall β) (MemEnv β) Site (MemShared β) (MemChoice β)
      IoctlCall where
  toSharing := memSharing
  prog := MemRequest.prog stale
  data := MemRequest.data
  outside o g := { g with tun := (scullIoctl g.tun o.cmd o.arg o.env).tunables }

/-- A call on the atomic machine, which may be a dump of a device. -/
inductive MemOp (β : Type) where
  | act (b : MemAction β)
  | dump (i : Nat) (intr : Bool)

/-- What it shows; a dump shows the device that it prints. -/
inductive MemOut (β : Type) where
  | effect (e : MemEffect β)
  | dumped (r : Except Errno (ScullDev β))

/-- A dump of device `i` as one step: a signal can interrupt it, and it waits forever for a lock
whose owner was killed. -/
def MemState.dump (s : MemState β) (i : Nat) (intr : Bool) : Option (Except Errno (ScullDev β)) :=
  if intr then some (.error .ERESTARTSYS)
  else if (s.devices i).stuck then none
  else some (.ok (s.devices i))

/-- The text of a dump is that of the device. -/
theorem MemState.seq_show_eq_dump (s : MemState UInt8) (i : Nat) (intr : Bool) :
    s.seqShow i intr = (s.dump i intr).map fun r => r.map (Scull.scullSeqShow i) := by
  unfold MemState.seqShow MemState.dump
  split_ifs <;> rfl

/-- The atomic machine with dumps. -/
def MemState.opStep (stale : Nat → Nat → β) (s : MemState β) :
    MemOp β → Option (MemState β × MemOut β)
  | .act b => (s.step stale b).map fun r => (r.1, .effect r.2)
  | .dump i intr => (s.dump i intr).map fun r => (s, .dumped r)

/-- A call that is not a dump. -/
theorem MemState.op_step_act {stale : Nat → Nat → β} {s t : MemState β} {b : MemAction β}
    {e : MemEffect β} (h : s.step stale b = some (t, e)) :
    s.opStep stale (.act b) = some (t, .effect e) := by
  rw [opStep, h]
  rfl

/-- The atomic machine as the abstraction of the calls on device `i`. When nobody holds the lock the
device is that of the atomic machine, and the tunables always are. -/
def memAbstraction (stale : Nat → Nat → β) (i : Nat) :
    Abstraction (MemShared β) (MemState β) (MemOp β) (MemOut β) where
  step := MemState.opStep stale
  base a g := i < a.nrDevs ∧ a.tun = g.tun ∧ a.tun.scullQset = defaultQset ∧ a.Shaped
  inv a g := g.dev = a.devices i ∧ g.next = a.next ∧ (a.devices i).stuck = false
  rely x y := y = x ∨ ∃ tun, y = ({ x.1 with tun := tun }, { x.2 with tun := tun })
  rely_refl _ := .inl rfl
  rely_trans := by
    rintro x y z (rfl | ⟨tun, rfl⟩) (rfl | ⟨tun', rfl⟩)
    · exact .inl rfl
    · exact .inr ⟨tun', rfl⟩
    · exact .inr ⟨tun, rfl⟩
    · exact .inr ⟨tun', rfl⟩

/-- The result of a call as the atomic machine shows it. -/
def memRet : Except Errno Nat → MemRet
  | .ok count => .done count
  | .error err => .failed err

/-- A call that has returned has executed the action that was asked for, with the result it has
returned. -/
def MemRequest.Served (i : Nat) : MemRequest β → List (MemOp β × MemOut β) → MemCall β → Prop
  | open_ mode, trace, c => ∃ ch e, trace = [(.act (.openDev i mode ch), .effect e)] ∧
      e.ret = memRet c.ssret
  | read pos count _, trace, c => ∃ ch e, trace = [(.act (.read i pos count ch), .effect e)] ∧
      e.ret = memRet c.ssret ∧ e.got = c.buf ∧ e.fPos = some c.fPos
  | write pos data _, trace, c => ∃ ch e, trace = [(.act (.write i pos data ch), .effect e)] ∧
      e.ret = memRet c.ssret ∧ e.fPos = some c.fPos
  | seqShow, trace, c => ∃ intr r, trace = [(.dump i intr, .dumped r)] ∧ c.dumped = some r

section Walk

/-- A walk that arrives depends on the allocations it has made only. -/
theorem scull_follow_congr {alloc alloc' : Nat → Bool} {n : Nat} {nodes : List (ScullQset β)}
    {next : Nat} (harrives : ((scullFollow alloc n nodes next).1[n]?).isSome = true)
    (hsame : ∀ m < (scullFollow alloc n nodes next).2, alloc' m = alloc m) :
    scullFollow alloc' n nodes next = scullFollow alloc n nodes next := by
  induction n generalizing nodes next with
  | zero =>
      cases nodes with
      | cons node rest => rfl
      | nil =>
          simp only [scullFollow] at harrives hsame ⊢
          split at harrives
          · rename_i halloc
            rw [if_pos halloc] at hsame ⊢
            rw [hsame next (Nat.lt_succ_self next), if_pos halloc]
          · cases harrives
  | succ n ih =>
      cases nodes with
      | cons node rest =>
          simp only [scullFollow, List.getElem?_cons_succ] at harrives hsame ⊢
          rw [ih harrives hsame]
      | nil =>
          simp only [scullFollow] at harrives hsame ⊢
          split at harrives
          · rename_i halloc
            rw [if_pos halloc] at hsame ⊢
            simp only [List.getElem?_cons_succ] at harrives hsame
            have hle := (scull_follow_adds alloc n ([] : List (ScullQset β)) (next + 1)).le
            rw [hsame next (by omega), if_pos halloc, ih harrives hsame]
          · cases harrives

/-- The allocations up to number `n`, and from there on those of another statement. -/
def splice (n : Nat) (alloc alloc' : Nat → Bool) (m : Nat) : Bool :=
  if m < n then alloc m else alloc' m

/-- The next allocation is one of the new statement. -/
theorem splice_self (n : Nat) (alloc alloc' : Nat → Bool) : splice n alloc alloc' n = alloc' n :=
  if_neg (Nat.lt_irrefl n)

/-- The earlier ones stay. -/
theorem splice_lt {n m : Nat} (alloc alloc' : Nat → Bool) (h : m < n) :
    splice n alloc alloc' m = alloc m :=
  if_pos h

/-- An array takes one allocation. -/
theorem alloc_data_congr {alloc alloc' : Nat → Bool} {next : Nat} (h : alloc' next = alloc next)
    (qsetLen : Nat) (node : ScullQset β) :
    allocData alloc' qsetLen node next = allocData alloc qsetLen node next := by
  simp only [allocData, h]

/-- An array that is there depends on the allocations that were made only. -/
theorem alloc_data_congr_some {alloc alloc' : Nat → Bool} {qsetLen next next' : Nat}
    {node : ScullQset β} {array : QuantumArray β}
    (h : allocData alloc qsetLen node next = (some array, next'))
    (hsame : ∀ m < next', alloc' m = alloc m) :
    allocData alloc' qsetLen node next = (some array, next') := by
  unfold allocData at h ⊢
  split at h
  · exact h
  · split at h
    · rename_i halloc
      cases h
      rw [hsame next (Nat.lt_succ_self next), if_pos halloc]
    · cases h

/-- A quantum takes one allocation. -/
theorem alloc_quantum_congr {stale : Nat → Nat → β} {alloc alloc' : Nat → Bool} {next : Nat}
    (h : alloc' next = alloc next) (array : QuantumArray β) (quantumP : Nat) :
    allocQuantum stale alloc' array quantumP next =
      allocQuantum stale alloc array quantumP next := by
  simp only [allocQuantum, h]

end Walk

section Sections

variable {stale : Nat → Nat → β} {i : Nat} {trace₀ : List (MemOp β × MemOut β)}
  {K L : ScullDev β → Nat → MemCall β → Prop}
  {P Q : Assertion (MemState β) (MemOp β) (MemOut β) (MemCall β)}

/-- A call on device `i` holds the lock, and `K` relates the device of the atomic machine and its
number of allocations to the data of the call. -/
def MemSection (i : Nat) (trace₀ : List (MemOp β × MemOut β))
    (K : ScullDev β → Nat → MemCall β → Prop) :
    Assertion (MemState β) (MemOp β) (MemOut β) (MemCall β) :=
  InSection trace₀ fun a c => (a.devices i).stuck = false ∧ K (a.devices i) a.next c

/-- The tunables in the data of a call do not matter. -/
def TunFree (K : ScullDev β → Nat → MemCall β → Prop) : Prop :=
  ∀ dev n c tun, K dev n c → K dev n { c with tun := tun }

/-- Nor do they to what the data of a call say about the device. -/
theorem TunFree.and {T : MemCall β → Prop} (hK : TunFree K)
    (hT : ∀ c tun, T c → T { c with tun := tun }) : TunFree fun dev n c => K dev n c ∧ T c :=
  fun dev n c tun h => ⟨hK dev n c tun h.1, hT c tun h.2⟩

/-- An ioctl in between does not matter to a section. -/
theorem TunFree.framed (hK : TunFree K) :
    Framed memSharing (memAbstraction stale i) fun a c =>
      (a.devices i).stuck = false ∧ K (a.devices i) a.next c := by
  rintro a c a' g - (heq | ⟨tun, heq⟩) ⟨hlive, hc⟩
  · cases heq
    exact ⟨hlive, hc⟩
  · cases heq
    exact ⟨hlive, hK _ _ _ tun hc⟩

/-- A statement of a section. -/
theorem mem_exec {f : MemCall β → MemEnv β → Option (MemCall β)} (hK : TunFree K)
    (hstep : ∀ dev n c x c', ArraysFit dev.qset dev.qsetLen → c.tun.scullQset = defaultQset →
      K dev n c → f c x = some c' → L dev n c' ∧ c'.tun = c.tun)
    (hP : Entails (MemSection i trace₀ L) P) :
    Entails (MemSection i trace₀ K) (After memSharing (memAbstraction stale i) f P) := by
  refine section_exec hK.framed ?_ hP
  rintro a c k c' ⟨hi, htun, hqset, hshaped⟩ ⟨hlive, hc⟩ hf
  have hdefault : c.tun.scullQset = defaultQset :=
    (congrArg Tunables.scullQset htun).symm.trans hqset
  obtain ⟨hnext, hsame⟩ := hstep _ _ _ _ c' (hshaped i) hdefault hc hf
  exact ⟨⟨hlive, hnext⟩, hi, htun.trans hsame.symm, hqset, hshaped⟩

/-- A statement of a section that the environment does not concern. -/
theorem mem_update {f : MemCall β → MemCall β} (hK : TunFree K)
    (hstep : ∀ dev n c, ArraysFit dev.qset dev.qsetLen → c.tun.scullQset = defaultQset →
      K dev n c → L dev n (f c) ∧ (f c).tun = c.tun)
    (hP : Entails (MemSection i trace₀ L) P) :
    Entails (MemSection i trace₀ K)
      (After memSharing (memAbstraction stale i) (fun c _ => some (f c)) P) :=
  mem_exec hK (fun dev n c _ _ harrays hqset hc hf =>
    Option.some.inj hf ▸ hstep dev n c harrays hqset hc) hP

/-- What holds in a section may be weakened. -/
theorem entails_mem (hKL : ∀ dev n c, K dev n c → L dev n c)
    (hP : Entails (MemSection i trace₀ L) P) : Entails (MemSection i trace₀ K) P :=
  entails_section (fun _ _ h => ⟨h.1, hKL _ _ _ h.2⟩) hP

/-- A test in a section. -/
theorem mem_test {T : MemCall β → MemEnv β → Bool} (hK : TunFree K)
    (hthen : ∀ x, Entails (MemSection i trace₀ fun dev n c => K dev n c ∧ T c x = true) P)
    (helse : ∀ x, Entails (MemSection i trace₀ fun dev n c => K dev n c ∧ T c x = false) Q) :
    Entails (MemSection i trace₀ K) (Tested memSharing (memAbstraction stale i) T P Q) :=
  section_test hK.framed
    (fun x => entails_section (fun _ _ h => ⟨h.1.1, h.1.2, h.2⟩) (hthen x))
    fun x => entails_section (fun _ _ h => ⟨h.1.1, h.1.2, h.2⟩) (helse x)

/-- A section goes on where its assertion is enough. -/
theorem mem_always (hK : TunFree K) (hP : Entails (MemSection i trace₀ K) P) :
    Entails (MemSection i trace₀ K) (Always memSharing (memAbstraction stale i) P) :=
  section_always hK.framed hP

/-- What is left to show of a call with this request. -/
abbrev served (stale : Nat → Nat → β) (i : Nat) (x : MemRequest β) :
    Goals (MemState β) (MemOp β) (MemOut β) (MemCall β) :=
  goals memSharing (memAbstraction stale i) (x.Served i)
    ([] : List (Item (MemCall β) (MemEnv β) Site))

/-- A call that has taken the lock. -/
def Entered (d : MemCall β) (dev : ScullDev β) (n : Nat) (c : MemCall β) : Prop :=
  ∃ tun, c = memSharing.put ⟨dev, tun, n⟩ d

theorem tun_free_entered (d : MemCall β) : TunFree (Entered d) := by
  rintro dev n c tun ⟨_, rfl⟩
  exact ⟨tun, rfl⟩

variable {d : MemCall β} {x : MemRequest β}

/-- A call takes the lock. -/
theorem mem_lock (hP : Entails (MemSection i trace₀ (Entered d)) P) :
    Entails (Outside memSharing trace₀ d) (Locked memSharing (memAbstraction stale i) P) := by
  refine outside_lock (fun a g _ hinv => ?_) hP
  obtain ⟨hdev, hnext, hlive⟩ := hinv
  refine ⟨hlive, g.tun, ?_⟩
  rw [← hdev, ← hnext]

/-- A call that executes one action as it returns without the lock. -/
theorem mem_return {ok : Bool} {f : MemCall β → MemEnv β → MemCall β} {b : MemAction β}
    {e : MemEffect β} (hf : ∀ g y, memSharing.get (f (memSharing.put g d) y) = g)
    (hstep : ∀ a : MemState β, i < a.nrDevs → a.step stale b = some (a, e))
    (hserved : ∀ g g' y,
      x.Served i [(.act b, .effect e)] (memSharing.put g' (f (memSharing.put g d) y))) :
    Entails (Outside memSharing [] d)
      ((Prog.ret ok f : MemProg β).wp memSharing (memAbstraction stale i) (served stale i x)) :=
  outside_return [(.act b, .effect e)] (fun g _ => hf g _)
    (fun a _ hbase => .one (MemState.op_step_act (hstep a hbase.1)))
    fun _ g _ => ⟨rfl, fun g' => hserved g g' _⟩

/-- A call returns that has executed its action before. -/
theorem mem_returned {ok : Bool} {f : MemCall β → MemEnv β → MemCall β}
    (hf : ∀ g y, memSharing.get (f (memSharing.put g d) y) = g)
    (hserved : ∀ g g' y, x.Served i trace₀ (memSharing.put g' (f (memSharing.put g d) y))) :
    Entails (Outside memSharing trace₀ d)
      ((Prog.ret ok f : MemProg β).wp memSharing (memAbstraction stale i) (served stale i x)) := by
  refine outside_return [] (fun g _ => hf g _) (fun a _ _ => .nil a) fun _ g _ => ?_
  rw [List.append_nil]
  exact ⟨rfl, fun g' => hserved g g' _⟩

/-- A section ends with the action that the call was to execute. -/
theorem mem_out (hK : TunFree K)
    (hend : ∀ (a : MemState β) c, i < a.nrDevs → (a.devices i).stuck = false →
      K (a.devices i) a.next c → ∃ b e, c.dev.stuck = false ∧
        a.step stale b = some ({ a with
          devices := Function.update a.devices i c.dev, next := c.next }, e) ∧
        ∀ g, x.Served i [(.act b, .effect e)] (memSharing.put g c)) :
    Entails (MemSection i [] K)
      (out.wp memSharing (memAbstraction stale i) (served stale i x)) := by
  refine section_unlock hK.framed ?_
  rintro a c ⟨hi, htun, hqset, hshaped⟩ ⟨hlive, hc⟩
  obtain ⟨b, e, hstuck, hstep, hserved⟩ := hend a c hi hlive hc
  refine ⟨[(.act b, .effect e)], _, .one (MemState.op_step_act hstep), ⟨hi, htun, hqset, ?_⟩,
    ⟨?_, rfl, ?_⟩, ?_⟩
  · exact (MemState.mem_step_sound hstep).shaped hshaped
  · exact (Function.update_self i _ a.devices).symm
  · show (Function.update a.devices i _ i).stuck = false
    rw [Function.update_self]
    exact hstuck
  · refine mem_returned (f := fun c _ => c) (fun _ _ => rfl) fun g g' _ => ?_
    rw [memSharing.put_put]
    exact hserved g'

end Sections

section Read

variable {stale : Nat → Nat → β} {i pos count : Nat} (fits : pos + count < 2 ^ 63)

/-- A section of the device runs as one step. -/
theorem locked_runs {a : MemState β} {ch : MemChoice β} {fPos : Option Nat}
    {body : ScullDev β → Nat → ScullDev β × Nat × MemEffect β} {dev : ScullDev β} {next : Nat}
    {e : MemEffect β} (hi : i < a.nrDevs) (hlive : (a.devices i).stuck = false)
    (hintr : ch.intr = false) (hbody : body (a.devices i) a.next = (dev, next, e)) :
    a.locked i ch fPos body =
      some ({ a with devices := Function.update a.devices i dev, next := next }, e) := by
  simp [MemState.locked, hi, hlive, hintr, hbody]

/-- `scull_read` has done what the atomic one does. -/
def ReadDone (pos count : Nat) (dev : ScullDev β) (n : Nat) (c : MemCall β) : Prop :=
  c.dev.stuck = dev.stuck ∧ ∃ ch e, ch.intr = false ∧
    scullRead dev pos count ch n = (c.dev, c.next, e) ∧ e.ret = memRet c.ssret ∧ e.got = c.buf ∧
    e.fPos = some c.fPos

/-- It ends so. -/
theorem read_out : Entails (MemSection i [] (ReadDone (β := β) pos count))
    (out.wp memSharing (memAbstraction stale i) (served stale i (.read pos count fits))) := by
  refine mem_out (fun _ _ _ _ h => h) ?_
  rintro a c hi hlive ⟨hstuck, ch, e, hintr, hread, hret, hgot, hpos⟩
  refine ⟨.read i pos count ch, e, hstuck.trans hlive, ?_, fun _ => ⟨ch, e, rfl, hret, hgot, hpos⟩⟩
  simp only [MemState.step, if_pos fits]
  exact locked_runs hi hlive hintr hread

/-- The bytes a read is after. -/
def wanted (pos count : Nat) (dev : ScullDev β) : Nat :=
  if pos + count > dev.len then dev.len - pos else count

/-- `scull_read` after the tests in front of `__scull_follow`. -/
def ReadStarts (pos count : Nat) (dev : ScullDev β) (n : Nat) (c : MemCall β) : Prop :=
  pos < dev.len ∧ ∃ tun,
    c = ⟨dev, tun, n, .rdonly, [], pos, wanted pos count dev, ⟨0, 0, 0⟩, .ok 0, none⟩

/-- `scull_read` knows the position. -/
def ReadLocates (pos count : Nat) (dev : ScullDev β) (n : Nat) (c : MemCall β) : Prop :=
  pos < dev.len ∧ dev.totalLen ≠ 0 ∧ ∃ tun,
    c = ⟨dev, tun, n, .rdonly, [], pos, wanted pos count dev, dev.position pos, .ok 0, none⟩

/-- `scull_read` after `__scull_follow`, with `m` bytes to copy and the result so far. -/
def ReadFollowed (pos : Nat) (m : ScullDev β → Nat) (ssret : Except Errno Nat) (dev : ScullDev β)
    (n : Nat) (c : MemCall β) : Prop :=
  pos < dev.len ∧ dev.totalLen ≠ 0 ∧ ∃ tun alloc,
    c = ⟨{ dev with qset := (scullFollow alloc (dev.position pos).qsetP dev.qset n).1 }, tun,
      (scullFollow alloc (dev.position pos).qsetP dev.qset n).2, .rdonly, [], pos, m dev,
      dev.position pos, ssret, none⟩

theorem tun_free_read_starts : TunFree (ReadStarts (β := β) pos count) := by
  rintro dev n c tun ⟨hpos, -, rfl⟩
  exact ⟨hpos, tun, rfl⟩

theorem tun_free_read_locates : TunFree (ReadLocates (β := β) pos count) := by
  rintro dev n c tun ⟨hpos, hne, -, rfl⟩
  exact ⟨hpos, hne, tun, rfl⟩

theorem tun_free_read_followed (m : ScullDev β → Nat) (ssret : Except Errno Nat) :
    TunFree (ReadFollowed (β := β) pos m ssret) := by
  rintro dev n c tun ⟨hpos, hne, -, alloc, rfl⟩
  exact ⟨hpos, hne, tun, alloc, rfl⟩

/-- The bytes a read copies. -/
def copied (pos count : Nat) (dev : ScullDev β) : Nat :=
  min (wanted pos count dev) (dev.quantumLen - (dev.position pos).offsetP)

/-- The read ends behind the end of the device. -/
theorem read_at_end {dev : ScullDev β} {n : Nat} {c : MemCall β}
    (hc : Entered (MemRequest.read (β := β) pos count fits).data dev n c) (hend : dev.len ≤ pos) :
    ReadDone pos count dev n c := by
  obtain ⟨tun, rfl⟩ := hc
  exact ⟨rfl, {}, _, rfl, by rw [scullRead, if_pos hend]; rfl, rfl, rfl, rfl⟩

/-- `scull_read` goes by the quantum that `__scull_follow` leads to. -/
theorem scull_read_quantum (count : Nat) {dev : ScullDev β} {n : Nat} {c : MemCall β}
    {m : ScullDev β → Nat} {ssret : Except Errno Nat} (hc : ReadFollowed pos m ssret dev n c) :
    ∃ alloc, ∀ fault, scullRead dev pos count { alloc := alloc, fault := fault } n =
      match c.quantum with
      | none => (c.dev, c.next, { fPos := some pos, ret := .done 0 })
      | some quantum =>
          if fault then
            (c.dev, c.next,
              { copy := some ((dev.position pos).offsetP, copied pos count dev)
                fPos := some pos
                ret := .failed .EFAULT })
          else
            (c.dev, c.next,
              { copy := some ((dev.position pos).offsetP, copied pos count dev)
                got := slice quantum.bytes (dev.position pos).offsetP (copied pos count dev)
                fPos := some (pos + copied pos count dev)
                ret := .done (copied pos count dev) }) := by
  obtain ⟨hpos, hne, tun, alloc, rfl⟩ := hc
  refine ⟨alloc, fun fault => ?_⟩
  rw [scullRead, if_neg (Nat.not_le.mpr hpos)]
  simp only [if_neg hne]
  rfl

/-- The read finds no quantum. -/
theorem read_hole {dev : ScullDev β} {n : Nat} {c : MemCall β}
    (hc : ReadFollowed pos (wanted pos count) (.ok 0) dev n c) (hnone : c.quantum = none) :
    ReadDone pos count dev n c := by
  obtain ⟨alloc, hread⟩ := scull_read_quantum count hc
  rw [hnone] at hread
  obtain ⟨-, -, tun, _, rfl⟩ := hc
  exact ⟨rfl, _, _, rfl, hread false, rfl, rfl, rfl⟩

/-- The copy of the read faults. -/
theorem read_faulted {dev : ScullDev β} {n : Nat} {c : MemCall β} {quantum : Quantum β}
    (hc : ReadFollowed pos (copied pos count) (.error .EFAULT) dev n c)
    (hsome : c.quantum = some quantum) : ReadDone pos count dev n c := by
  obtain ⟨alloc, hread⟩ := scull_read_quantum count hc
  rw [hsome] at hread
  obtain ⟨-, -, tun, _, rfl⟩ := hc
  exact ⟨rfl, _, _, rfl, hread true, rfl, rfl, rfl⟩

/-- The read copies. -/
theorem read_copies {dev : ScullDev β} {n : Nat} {c : MemCall β} {quantum : Quantum β}
    (hc : ReadFollowed pos (copied pos count) (.ok 0) dev n c) (hsome : c.quantum = some quantum) :
    ReadDone pos count dev n
      { c with
        buf := c.quantum.elim [] fun quantum => slice quantum.bytes c.flw.offsetP c.count
        fPos := c.fPos + c.count
        ssret := .ok c.count } := by
  obtain ⟨alloc, hread⟩ := scull_read_quantum count hc
  rw [hsome] at hread ⊢
  obtain ⟨-, -, tun, _, rfl⟩ := hc
  exact ⟨rfl, _, _, rfl, hread false, rfl, rfl, rfl⟩

/-- The precondition of `scull_read`. -/
theorem wp_read : Entails (Outside memSharing [] (MemRequest.read (β := β) pos count fits).data)
    ((MemFn.read.prog stale).wp memSharing (memAbstraction stale i)
      (served stale i (.read pos count fits))) := by
  simp only [MemFn.prog, Calls.scullRead, update, lockOrRestart, Prog.block, Prog.wp]
  refine outside_update (fun _ => rfl) fun held a trace c hc => ?_
  refine ⟨mem_lock ?_ _ _ _ _ hc, mem_return (b := .read i pos count { intr := true })
    (e := { fPos := some pos, ret := .failed .ERESTARTSYS }) ?_ ?_ ?_ _ _ _ _ hc⟩
  · simp only [gotoIf, Calls.scullFollow, Prog.block, Prog.wp]
    have hdone : TunFree (ReadDone (β := β) pos count) := fun _ _ _ _ h => h
    have hout : Entails (MemSection i [] (ReadDone pos count))
        (Always memSharing (memAbstraction stale i) (out.wp memSharing (memAbstraction stale i)
          (served stale i (.read pos count fits)))) := mem_always hdone (read_out fits)
    -- the position and the length
    refine mem_test (tun_free_entered _) (fun x => ?_) fun x => ?_
    · refine entails_mem ?_ hout
      rintro dev n c ⟨⟨tun, rfl⟩, hend⟩
      exact read_at_end fits ⟨tun, rfl⟩ (of_decide_eq_true hend)
    refine mem_always ((tun_free_entered _).and fun _ _ h => h) (mem_update
      (L := ReadStarts pos count) ((tun_free_entered _).and fun _ _ h => h) ?_ ?_)
    · rintro dev n c - - ⟨⟨tun, rfl⟩, hlen⟩
      exact ⟨⟨Nat.not_le.mp (of_decide_eq_false hlen), tun, rfl⟩, rfl⟩
    -- `__scull_follow`
    refine mem_exec (L := ReadLocates pos count) tun_free_read_starts ?_
      (mem_always tun_free_read_locates ?_)
    · rintro dev n c x c' - - ⟨hpos, tun, rfl⟩ hf
      dsimp only at hf
      split at hf
      · cases hf
      · rename_i hne
        cases hf
        exact ⟨⟨hpos, hne, tun, rfl⟩, rfl⟩
    refine mem_exec (L := ReadFollowed pos (wanted pos count) (.ok 0)) tun_free_read_locates ?_
      ?_
    · rintro dev n c x c' - - ⟨hpos, hne, tun, rfl⟩ hf
      cases hf
      exact ⟨⟨hpos, hne, tun, x.ch.alloc, rfl⟩, rfl⟩
    -- the quantum
    refine mem_test (tun_free_read_followed _ _) (fun x => ?_) fun x => ?_
    · refine entails_mem ?_ hout
      rintro dev n c ⟨hc, hnone⟩
      exact read_hole hc (Option.isNone_iff_eq_none.mp hnone)
    refine mem_always ((tun_free_read_followed _ _).and fun _ _ h => h) (mem_update
      (L := fun dev n c => ReadFollowed pos (copied pos count) (.ok 0) dev n c ∧
        c.quantum.isNone = false) ((tun_free_read_followed _ _).and fun _ _ h => h) ?_ ?_)
    · rintro dev n c - - ⟨⟨hpos, hne, tun, alloc, rfl⟩, hsome⟩
      exact ⟨⟨⟨hpos, hne, tun, alloc, rfl⟩, hsome⟩, rfl⟩
    -- the copy
    refine mem_test ((tun_free_read_followed _ _).and fun _ _ h => h) (fun x => ?_) fun x => ?_
    · refine mem_update (L := ReadDone pos count) ?_ ?_ hout
      · exact ((tun_free_read_followed _ _).and fun _ _ h => h).and fun _ _ h => h
      · rintro dev n c - - ⟨⟨⟨hpos, hne, tun, alloc, rfl⟩, hsome⟩, -⟩
        obtain ⟨quantum, hquantum⟩ := Option.isSome_iff_exists.mp
          (Option.isNone_eq_false_iff.mp hsome)
        exact ⟨read_faulted ⟨hpos, hne, tun, alloc, rfl⟩ hquantum, rfl⟩
    · have hfree : TunFree fun dev n (c : MemCall β) =>
          (ReadFollowed pos (copied pos count) (.ok 0) dev n c ∧ c.quantum.isNone = false) ∧
            x.ch.fault = false :=
        ((tun_free_read_followed _ _).and fun _ _ h => h).and fun _ _ h => h
      refine mem_always hfree (mem_update (L := ReadDone pos count) hfree ?_ hout)
      rintro dev n c - - ⟨⟨hc, hsome⟩, -⟩
      obtain ⟨quantum, hquantum⟩ := Option.isSome_iff_exists.mp
        (Option.isNone_eq_false_iff.mp hsome)
      exact ⟨read_copies hc hquantum, rfl⟩
  · exact fun _ _ => rfl
  · intro a hi
    simp only [MemState.step, if_pos fits, MemState.locked, if_pos hi]
    rfl
  · exact fun _ _ _ => ⟨_, _, rfl, rfl, rfl, rfl⟩

end Read

section Write

variable {stale : Nat → Nat → β} {i pos : Nat} {data : List β}

/-- `scull_write` has done what the atomic one does. -/
def WriteDone (stale : Nat → Nat → β) (pos : Nat) (data : List β) (dev : ScullDev β) (n : Nat)
    (c : MemCall β) : Prop :=
  c.dev.stuck = dev.stuck ∧ ∃ ch e, ch.intr = false ∧
    scullWrite stale dev pos data ch n = (c.dev, c.next, e) ∧ e.ret = memRet c.ssret ∧
    e.fPos = some c.fPos

/-- It ends so. -/
theorem write_out (fits : pos + data.length < 2 ^ 63) :
    Entails (MemSection i [] (WriteDone stale pos data))
      (out.wp memSharing (memAbstraction stale i) (served stale i (.write pos data fits))) := by
  refine mem_out (fun _ _ _ _ h => h) ?_
  rintro a c hi hlive ⟨hstuck, ch, e, hintr, hwrite, hret, hpos⟩
  refine ⟨.write i pos data ch, e, hstuck.trans hlive, ?_, fun _ => ⟨ch, e, rfl, hret, hpos⟩⟩
  simp only [MemState.step, if_pos fits]
  exact locked_runs hi hlive hintr hwrite

/-- A write on its way: the device has these nodes, and `m` bytes are to be copied. -/
def writing (pos : Nat) (data : List β) (dev : ScullDev β) (nodes : List (ScullQset β))
    (next m : Nat) (tun : Tunables) : MemCall β :=
  ⟨{ dev with qset := nodes }, tun, next, .wronly, data, pos, m, dev.position pos, .error .ENOMEM,
    none⟩

/-- `scull_write` knows the position. -/
def WriteLocates (pos : Nat) (data : List β) (dev : ScullDev β) (n : Nat) (c : MemCall β) : Prop :=
  dev.totalLen ≠ 0 ∧ ∃ tun, c = writing pos data dev dev.qset n data.length tun

/-- `scull_write` after `__scull_follow`. -/
def WriteFollowed (pos : Nat) (data : List β) (dev : ScullDev β) (n : Nat) (c : MemCall β) : Prop :=
  dev.totalLen ≠ 0 ∧ ∃ tun alloc nodes next,
    scullFollow alloc (dev.position pos).qsetP dev.qset n = (nodes, next) ∧
    c = writing pos data dev nodes next data.length tun

/-- The way of a write to a node of the device. -/
structure NodePath (pos : Nat) (dev : ScullDev β) (n : Nat) where
  alloc : Nat → Bool
  nodes : List (ScullQset β)
  next : Nat
  node : ScullQset β
  follow : scullFollow alloc (dev.position pos).qsetP dev.qset n = (nodes, next)
  getElem?_node : nodes[(dev.position pos).qsetP]? = some node

/-- The way of a write to an array of the device. -/
structure ArrayPath (pos : Nat) (dev : ScullDev β) (n : Nat) extends NodePath pos dev n where
  array : QuantumArray β
  after : Nat
  allocData_eq : allocData alloc dev.qsetLen node next = (some array, after)
  slot_lt : (dev.position pos).quantumP < array.slots.length

namespace NodePath

variable {dev : ScullDev β} {n : Nat}

/-- The nodes with an array in the node of the position. -/
def put (p : NodePath pos dev n) (array : QuantumArray β) : List (ScullQset β) :=
  putData p.nodes (dev.position pos).qsetP p.node array

/-- A node that has been reached stays when a later statement decides about later allocations. -/
def splice (p : NodePath pos dev n) (after : Nat) (h : p.next ≤ after) (alloc' : Nat → Bool) :
    NodePath pos dev n :=
  { p with
    alloc := Scull.splice after p.alloc alloc'
    follow := by
      have hfollow := p.follow
      rw [← hfollow]
      refine scull_follow_congr ?_ fun m hm => ?_
      · rw [hfollow]
        show (p.nodes[(dev.position pos).qsetP]?).isSome = true
        rw [p.getElem?_node]
        rfl
      · rw [hfollow] at hm
        exact splice_lt p.alloc alloc' (Nat.lt_of_lt_of_le hm h) }

end NodePath

/-- An array that has been reached stays when a later statement decides about later allocations. -/
def ArrayPath.splice {dev : ScullDev β} {n : Nat} (p : ArrayPath pos dev n) (alloc' : Nat → Bool) :
    ArrayPath pos dev n :=
  { p.toNodePath.splice p.after (alloc_data_adds p.getElem?_node p.allocData_eq).le alloc' with
    array := p.array
    after := p.after
    allocData_eq := alloc_data_congr_some p.allocData_eq fun _ hm => splice_lt p.alloc alloc' hm
    slot_lt := p.slot_lt }

/-- `scull_write` after it has tried to get an array, with the result. -/
def WriteTriedArray (pos : Nat) (data : List β) (dev : ScullDev β) (n : Nat) (c : MemCall β) :
    Prop :=
  dev.totalLen ≠ 0 ∧ ∃ tun, ∃ p : NodePath pos dev n, ∃ r next,
    allocData p.alloc dev.qsetLen p.node p.next = (r, next) ∧
    c = writing pos data dev (r.elim p.nodes p.put) next data.length tun

/-- `scull_write` after it has tried to get a quantum, with the result. -/
def WriteTriedQuantum (stale : Nat → Nat → β) (pos : Nat) (data : List β) (dev : ScullDev β)
    (n : Nat) (c : MemCall β) : Prop :=
  dev.totalLen ≠ 0 ∧ ∃ tun, ∃ p : ArrayPath pos dev n, ∃ r next,
    allocQuantum stale p.alloc p.array (dev.position pos).quantumP p.after = (r, next) ∧
    c = writing pos data dev
      (p.put (r.elim p.array (p.array.put (dev.position pos).quantumP))) next data.length tun

/-- `scull_write` has a quantum and knows how many bytes to copy. -/
def WriteReady (stale : Nat → Nat → β) (pos : Nat) (data : List β) (dev : ScullDev β) (n : Nat)
    (c : MemCall β) : Prop :=
  dev.totalLen ≠ 0 ∧ ∃ tun, ∃ p : ArrayPath pos dev n, ∃ quantum next,
    allocQuantum stale p.alloc p.array (dev.position pos).quantumP p.after = (some quantum, next) ∧
    c = writing pos data dev (p.put (p.array.put (dev.position pos).quantumP quantum)) next
      (min data.length (dev.quantumLen - (dev.position pos).offsetP)) tun

section Paths

variable {dev : ScullDev β} {n next m : Nat} {tun : Tunables}

/-- The node of a write whose node has got an array. -/
theorem writing_node (p : NodePath pos dev n) (array : QuantumArray β) :
    (writing pos data dev (p.put array) next m tun).node =
      some { p.node with data := some array } := by
  have hlt := (List.getElem?_eq_some_iff.mp p.getElem?_node).1
  exact List.getElem?_set_self hlt

/-- Its array. -/
theorem writing_array (p : NodePath pos dev n) (array : QuantumArray β) :
    (writing pos data dev (p.put array) next m tun).array = some array := by
  rw [MemCall.array, writing_node]
  rfl

/-- Its quantum. -/
theorem writing_quantum (p : NodePath pos dev n) (array : QuantumArray β) :
    (writing pos data dev (p.put array) next m tun).quantum =
      array.slots[(dev.position pos).quantumP]?.join := by
  rw [MemCall.quantum, writing_array]
  rfl

/-- The array may be replaced. -/
theorem NodePath.put_data_put (p : NodePath pos dev n) (array array' : QuantumArray β) :
    putData (p.put array) (dev.position pos).qsetP { p.node with data := some array } array' =
      p.put array' :=
  List.set_set _

/-- The array of a write has a slot for the position. -/
theorem NodePath.slot_lt (p : NodePath pos dev n) (hne : dev.totalLen ≠ 0)
    (harrays : ArraysFit dev.qset dev.qsetLen) {array : QuantumArray β} {after : Nat}
    (hdata : allocData p.alloc dev.qsetLen p.node p.next = (some array, after)) :
    (dev.position pos).quantumP < array.slots.length := by
  have hnodes : ArraysFit p.nodes dev.qsetLen := by
    have hsame := (scull_follow_same_slots p.alloc dev.qsetLen (dev.position pos).qsetP n
      harrays).arrays
    rwa [p.follow] at hsame
  rw [(alloc_data_eq_some hnodes p.getElem?_node hdata).1]
  exact (position_lt hne pos).1

/-- A slot holds the quantum that was put into it. -/
theorem slot_put {array : QuantumArray β} {j : Nat} (hj : j < array.slots.length)
    (quantum : Quantum β) : (array.put j quantum).slots[j]?.join = some quantum := by
  simp [QuantumArray.put, hj]

/-- The bytes of the quantum change. -/
theorem writing_set_bytes (p : ArrayPath pos dev n) (quantum : Quantum β)
    (f : (Nat → β) → Nat → β) :
    (writing pos data dev (p.put (p.array.put (dev.position pos).quantumP quantum)) next m
      tun).setBytes f =
      writing pos data dev (p.put (p.array.put (dev.position pos).quantumP
        { quantum with bytes := f quantum.bytes })) next m tun := by
  have hput : (p.array.put (dev.position pos).quantumP quantum).put (dev.position pos).quantumP
      { quantum with bytes := f quantum.bytes } =
      p.array.put (dev.position pos).quantumP { quantum with bytes := f quantum.bytes } := by
    simp only [QuantumArray.put, List.set_set]
  rw [MemCall.setBytes, writing_node, writing_array, writing_quantum,
    slot_put p.slot_lt, ← hput]
  exact congrArg (fun nodes => writing pos data dev nodes next m tun)
    (p.put_data_put (p.array.put (dev.position pos).quantumP quantum) _)

end Paths

section Stages

variable {dev : ScullDev β} {n : Nat} {c : MemCall β}

theorem tun_free_write_locates : TunFree (WriteLocates pos data) := by
  rintro dev n c tun ⟨hne, -, rfl⟩
  exact ⟨hne, tun, rfl⟩

theorem tun_free_write_followed : TunFree (WriteFollowed pos data) := by
  rintro dev n c tun ⟨hne, -, alloc, nodes, next, hfollow, rfl⟩
  exact ⟨hne, tun, alloc, nodes, next, hfollow, rfl⟩

theorem tun_free_write_tried_array : TunFree (WriteTriedArray pos data) := by
  rintro dev n c tun ⟨hne, -, p, r, next, hdata, rfl⟩
  exact ⟨hne, tun, p, r, next, hdata, rfl⟩

theorem tun_free_write_tried_quantum : TunFree (WriteTriedQuantum stale pos data) := by
  rintro dev n c tun ⟨hne, -, p, r, next, hquantum, rfl⟩
  exact ⟨hne, tun, p, r, next, hquantum, rfl⟩

theorem tun_free_write_ready : TunFree (WriteReady stale pos data) := by
  rintro dev n c tun ⟨hne, -, p, quantum, next, hquantum, rfl⟩
  exact ⟨hne, tun, p, quantum, next, hquantum, rfl⟩

/-- There is no memory for the nodes. -/
theorem write_no_node (hc : WriteFollowed pos data dev n c) (hnone : c.node = none) :
    WriteDone stale pos data dev n c := by
  obtain ⟨hne, tun, alloc, nodes, next, hfollow, rfl⟩ := hc
  have hnode : nodes[(dev.position pos).qsetP]? = none := hnone
  refine ⟨rfl, { alloc := alloc }, { fPos := some pos, ret := .failed .ENOMEM }, rfl, ?_, rfl, rfl⟩
  simp only [scullWrite, if_neg hne, hfollow, hnode]
  rfl

/-- There is no memory for the array. -/
theorem write_no_array (hc : WriteTriedArray pos data dev n c) (hnone : c.array = none) :
    WriteDone stale pos data dev n c := by
  obtain ⟨hne, tun, p, r, next, hdata, rfl⟩ := hc
  cases r with
  | some array => cases (writing_array p array).symm.trans hnone
  | none =>
      refine ⟨rfl, { alloc := p.alloc }, { fPos := some pos, ret := .failed .ENOMEM }, rfl, ?_, rfl,
        rfl⟩
      simp only [scullWrite, if_neg hne, p.follow, p.getElem?_node, hdata]
      rfl

/-- There is no memory for the quantum. -/
theorem write_no_quantum (hc : WriteTriedQuantum stale pos data dev n c)
    (hnone : c.quantum = none) : WriteDone stale pos data dev n c := by
  obtain ⟨hne, tun, p, r, next, hquantum, rfl⟩ := hc
  cases r with
  | some quantum =>
      rw [writing_quantum] at hnone
      cases (slot_put p.slot_lt quantum).symm.trans hnone
  | none =>
      refine ⟨rfl, { alloc := p.alloc }, { fPos := some pos, ret := .failed .ENOMEM }, rfl, ?_, rfl,
        rfl⟩
      simp only [scullWrite, if_neg hne, p.follow, p.getElem?_node, p.allocData_eq, hquantum]
      rfl

/-- The write has its quantum. -/
theorem write_ready (hc : WriteTriedQuantum stale pos data dev n c)
    (hsome : c.quantum.isNone = false) :
    WriteReady stale pos data dev n
      { c with count := min c.count (c.dev.quantumLen - c.flw.offsetP) } ∧
      ({ c with count := min c.count (c.dev.quantumLen - c.flw.offsetP) } : MemCall β).tun =
        c.tun := by
  obtain ⟨hne, tun, p, r, next, hquantum, rfl⟩ := hc
  cases r with
  | some quantum => exact ⟨⟨hne, tun, p, quantum, next, hquantum, rfl⟩, rfl⟩
  | none =>
      -- the slot had none either
      have hnone : p.array.slots[(dev.position pos).quantumP]?.join = none := by
        cases hslot : p.array.slots[(dev.position pos).quantumP]?.join with
        | none => rfl
        | some quantum => simp [allocQuantum, hslot] at hquantum
      rw [writing_quantum, Option.elim_none, hnone] at hsome
      cases hsome

/-- The tunables stay as they are when the bytes change. -/
theorem set_bytes_tun (c : MemCall β) (f : (Nat → β) → Nat → β) : (c.setBytes f).tun = c.tun := by
  unfold MemCall.setBytes
  split <;> rfl

/-- The bytes a write copies. -/
def stored (pos : Nat) (data : List β) (dev : ScullDev β) : Nat :=
  min data.length (dev.quantumLen - (dev.position pos).offsetP)

/-- `scull_write` with a quantum. -/
theorem scull_write_quantum (hne : dev.totalLen ≠ 0) (p : ArrayPath pos dev n) {quantum : Quantum β}
    {next : Nat}
    (hquantum : allocQuantum stale p.alloc p.array (dev.position pos).quantumP p.after =
      (some quantum, next)) (fault : Bool) (spoilt : Nat → Option β) :
    scullWrite stale dev pos data { alloc := p.alloc, fault := fault, spoilt := spoilt } n =
      if fault then
        ({ dev with
            qset := p.put (p.array.put (dev.position pos).quantumP { quantum with
              bytes := spoil quantum.bytes (dev.position pos).offsetP (stored pos data dev)
                spoilt }) },
          next,
          { copy := some ((dev.position pos).offsetP, stored pos data dev)
            fPos := some pos
            ret := .failed .EFAULT })
      else
        ({ dev with
            qset := p.put (p.array.put (dev.position pos).quantumP { quantum with
              bytes := store quantum.bytes (dev.position pos).offsetP
                (data.take (stored pos data dev)) })
            len := if dev.len < pos + stored pos data dev then pos + stored pos data dev
              else dev.len },
          next,
          { copy := some ((dev.position pos).offsetP, stored pos data dev)
            fPos := some (pos + stored pos data dev)
            ret := .done (stored pos data dev) }) := by
  simp only [scullWrite, if_neg hne, p.follow, p.getElem?_node, p.allocData_eq, hquantum]
  rfl

/-- The copy of the write faults. -/
theorem write_faulted (hc : WriteReady stale pos data dev n c) (spoilt : Nat → Option β) :
    WriteDone stale pos data dev n
      { c.setBytes fun bytes => spoil bytes c.flw.offsetP c.count spoilt with
        ssret := .error .EFAULT } := by
  obtain ⟨hne, tun, p, quantum, next, hquantum, rfl⟩ := hc
  rw [writing_set_bytes]
  exact ⟨rfl, _, _, rfl, scull_write_quantum hne p hquantum true spoilt, rfl, rfl⟩

/-- `scull_write` has copied the bytes and has the length of the device left. -/
def WriteStored (stale : Nat → Nat → β) (pos : Nat) (data : List β) (dev : ScullDev β) (n : Nat)
    (c : MemCall β) : Prop :=
  ∃ ch e, ch.intr = false ∧ scullWrite stale dev pos data ch n =
      ({ c.dev with len := if c.dev.len < c.fPos then c.fPos else c.dev.len }, c.next, e) ∧
    c.dev.stuck = dev.stuck ∧ e.ret = memRet c.ssret ∧ e.fPos = some c.fPos

/-- The write copies. -/
theorem write_copies (hc : WriteReady stale pos data dev n c) :
    let c := c.setBytes fun bytes => store bytes c.flw.offsetP (c.buf.take c.count)
    WriteStored stale pos data dev n { c with fPos := c.fPos + c.count, ssret := .ok c.count } := by
  obtain ⟨hne, tun, p, quantum, next, hquantum, rfl⟩ := hc
  rw [writing_set_bytes]
  exact ⟨_, _, rfl, scull_write_quantum hne p hquantum false fun _ => none, rfl, rfl, rfl⟩

/-- The device grows. -/
theorem write_grows (hc : WriteStored stale pos data dev n c) (hlt : c.dev.len < c.fPos) :
    WriteDone stale pos data dev n { c with dev.len := c.fPos } := by
  obtain ⟨ch, e, hintr, hwrite, hstuck, hret, hpos⟩ := hc
  rw [if_pos hlt] at hwrite
  exact ⟨hstuck, ch, e, hintr, hwrite, hret, hpos⟩

/-- The device keeps its length. -/
theorem write_stays (hc : WriteStored stale pos data dev n c) (hle : ¬ c.dev.len < c.fPos) :
    WriteDone stale pos data dev n c := by
  obtain ⟨ch, e, hintr, hwrite, hstuck, hret, hpos⟩ := hc
  rw [if_neg hle] at hwrite
  exact ⟨hstuck, ch, e, hintr, hwrite, hret, hpos⟩

end Stages

variable {P exit : Assertion (MemState β) (MemOp β) (MemOut β) (MemCall β)}
  {ret : Bool → Assertion (MemState β) (MemOp β) (MemOut β) (MemCall β)}

/-- The statement that gets the array. -/
theorem wp_alloc_data (hP : Entails (MemSection i [] (WriteTriedArray pos data)) P) :
    Entails (MemSection i [] fun dev n c => WriteFollowed pos data dev n c ∧ c.node.isNone = false)
      (allocDataProg.wp memSharing (memAbstraction stale i) ⟨P, exit, ret⟩) := by
  refine mem_exec (tun_free_write_followed.and fun _ _ h => h) ?_ hP
  rintro dev n c x c' - - ⟨⟨hne, tun, alloc, nodes, next, hfollow, rfl⟩, hsome⟩ hf
  obtain ⟨node, hnode⟩ := Option.isSome_iff_exists.mp (Option.isNone_eq_false_iff.mp hsome)
  have hget : nodes[(dev.position pos).qsetP]? = some node := hnode
  let p : NodePath pos dev n := ⟨alloc, nodes, next, node, hfollow, hget⟩
  -- the walk has used the allocations below `next`, and this statement uses the next one
  have hdata : allocData (splice next alloc x.ch.alloc) dev.qsetLen node next =
      allocData x.ch.alloc dev.qsetLen node next := alloc_data_congr (splice_self _ _ _) _ _
  rw [hnode] at hf
  dsimp only at hf
  split at hf
  · rename_i next' heq
    cases hf
    exact ⟨⟨hne, tun, p.splice next (Nat.le_refl _) x.ch.alloc, none, next', hdata.trans heq,
      rfl⟩, rfl⟩
  · rename_i array next' heq
    cases hf
    exact ⟨⟨hne, tun, p.splice next (Nat.le_refl _) x.ch.alloc, some array, next', hdata.trans heq,
      rfl⟩, rfl⟩

/-- The statement that gets the quantum. -/
theorem wp_alloc_quantum (hP : Entails (MemSection i [] (WriteTriedQuantum stale pos data)) P) :
    Entails
      (MemSection i [] fun dev n c => WriteTriedArray pos data dev n c ∧ c.array.isNone = false)
      ((allocQuantumProg stale).wp memSharing (memAbstraction stale i) ⟨P, exit, ret⟩) := by
  refine mem_exec (tun_free_write_tried_array.and fun _ _ h => h) ?_ hP
  rintro dev n c x c' harrays - ⟨⟨hne, tun, p, r, after, hdata, rfl⟩, hsome⟩ hf
  cases r with
  | none =>
      -- the node had no array either
      have hnone : p.node.data = none := by
        cases hnode : p.node.data with
        | none => rfl
        | some array => simp [allocData, hnode] at hdata
      have harray : (writing pos data dev p.nodes after data.length tun).array = none := by
        show p.nodes[(dev.position pos).qsetP]?.bind ScullQset.data = none
        rw [p.getElem?_node]
        exact hnone
      rw [Option.elim_none, harray] at hsome
      cases hsome
  | some array =>
      let q : ArrayPath pos dev n := ⟨p, array, after, hdata, p.slot_lt hne harrays hdata⟩
      have hquantum : allocQuantum stale (splice after p.alloc x.ch.alloc) array
          (dev.position pos).quantumP after =
          allocQuantum stale x.ch.alloc array (dev.position pos).quantumP after :=
        alloc_quantum_congr (splice_self _ _ _) _ _
      simp only [Option.elim_some, writing_node, writing_array] at hf
      split at hf
      · rename_i next' heq
        cases hf
        exact ⟨⟨hne, tun, q.splice x.ch.alloc, none, next', hquantum.trans heq, rfl⟩, rfl⟩
      · rename_i quantum next' heq
        cases hf
        refine ⟨⟨hne, tun, q.splice x.ch.alloc, some quantum, next', hquantum.trans heq, ?_⟩, rfl⟩
        exact congrArg (fun nodes => writing pos data dev nodes next' data.length tun)
          (p.put_data_put array _)

/-- The precondition of `scull_write`. -/
theorem wp_write (fits : pos + data.length < 2 ^ 63) :
    Entails (Outside memSharing [] (MemRequest.write pos data fits).data)
      ((MemFn.write.prog stale).wp memSharing (memAbstraction stale i)
        (served stale i (.write pos data fits))) := by
  simp only [MemFn.prog, Calls.scullWrite, update, lockOrRestart, Prog.block, Prog.wp]
  refine outside_update (fun _ => rfl) fun held a trace c hc => ?_
  refine ⟨mem_lock ?_ _ _ _ _ hc, mem_return (b := .write i pos data { intr := true })
    (e := { fPos := some pos, ret := .failed .ERESTARTSYS }) ?_ ?_ ?_ _ _ _ _ hc⟩
  · simp only [gotoIf, Calls.scullFollow, Prog.block, Prog.wp]
    have hdone : TunFree (WriteDone stale pos data) := fun _ _ _ _ h => h
    have hout : Entails (MemSection i [] (WriteDone stale pos data))
        (Always memSharing (memAbstraction stale i) (out.wp memSharing (memAbstraction stale i)
          (served stale i (.write pos data fits)))) := mem_always hdone (write_out fits)
    -- `__scull_follow`
    refine mem_exec (L := WriteLocates pos data) (tun_free_entered _) ?_
      (mem_always tun_free_write_locates ?_)
    · rintro dev n c x c' - - ⟨tun, rfl⟩ hf
      split at hf
      · cases hf
      · rename_i hne
        cases hf
        exact ⟨⟨hne, tun, rfl⟩, rfl⟩
    refine mem_exec (L := WriteFollowed pos data) tun_free_write_locates ?_ ?_
    · rintro dev n c x c' - - ⟨hne, tun, rfl⟩ hf
      cases hf
      exact ⟨⟨hne, tun, x.ch.alloc, _, _, rfl, rfl⟩, rfl⟩
    -- the node, the array and the quantum
    refine mem_test tun_free_write_followed (fun x => ?_) fun x => ?_
    · refine entails_mem ?_ hout
      exact fun dev n c hc => write_no_node hc.1 (Option.isNone_iff_eq_none.mp hc.2)
    refine mem_always (tun_free_write_followed.and fun _ _ h => h) (wp_alloc_data ?_)
    refine mem_test tun_free_write_tried_array (fun x => ?_) fun x => ?_
    · refine entails_mem ?_ hout
      exact fun dev n c hc => write_no_array hc.1 (Option.isNone_iff_eq_none.mp hc.2)
    refine mem_always (tun_free_write_tried_array.and fun _ _ h => h) (wp_alloc_quantum ?_)
    refine mem_test tun_free_write_tried_quantum (fun x => ?_) fun x => ?_
    · refine entails_mem ?_ hout
      exact fun dev n c hc => write_no_quantum hc.1 (Option.isNone_iff_eq_none.mp hc.2)
    have hfree : TunFree fun dev n (c : MemCall β) =>
        WriteTriedQuantum stale pos data dev n c ∧ c.quantum.isNone = false :=
      tun_free_write_tried_quantum.and fun _ _ h => h
    refine mem_always hfree (mem_update (L := WriteReady stale pos data) hfree
      (fun dev n c _ _ hc => write_ready hc.1 hc.2) ?_)
    -- the copy
    refine mem_test tun_free_write_ready (fun x => ?_) fun x => ?_
    · refine mem_exec (L := WriteDone stale pos data)
        (tun_free_write_ready.and fun _ _ h => h) ?_ hout
      rintro dev n c x c' - - ⟨hc, -⟩ hf
      cases hf
      exact ⟨write_faulted hc _, set_bytes_tun c _⟩
    refine mem_always (tun_free_write_ready.and fun _ _ h => h) (mem_update
      (L := WriteStored stale pos data) (tun_free_write_ready.and fun _ _ h => h) ?_ ?_)
    · exact fun dev n c _ _ hc => ⟨write_copies hc.1, set_bytes_tun c _⟩
    have hstored : TunFree (WriteStored stale pos data) := fun _ _ _ _ h => h
    refine mem_test hstored (fun x => ?_) fun x => ?_
    · refine mem_update (L := WriteDone stale pos data) (hstored.and fun _ _ h => h) ?_ hout
      exact fun dev n c _ _ hc => ⟨write_grows hc.1 (of_decide_eq_true hc.2), rfl⟩
    · refine mem_always (hstored.and fun _ _ h => h) (entails_mem ?_ hout)
      exact fun dev n c hc => write_stays hc.1 (of_decide_eq_false hc.2)
  · exact fun _ _ => rfl
  · intro a hi
    simp only [MemState.step, if_pos fits, MemState.locked, if_pos hi]
    rfl
  · exact fun _ _ _ => ⟨_, _, rfl, rfl, rfl⟩

end Write

section Open

variable {stale : Nat → Nat → β} {i : Nat}
  {P : Assertion (MemState β) (MemOp β) (MemOut β) (MemCall β)}

/-- The own data of `scull_open` do not change up to its end. -/
def opening (mode : AccMode) (dev : ScullDev β) (tun : Tunables) (n : Nat) : MemCall β :=
  memSharing.put ⟨dev, tun, n⟩ (MemRequest.open_ mode).data

/-- `__scull_trim` has emptied the device. -/
def OpenEmptied (dev : ScullDev β) (n : Nat) (c : MemCall β) : Prop :=
  ∃ tun, c = opening .wronly { dev with len := 0 } tun n

/-- `__scull_trim` has read the quantum. From here on the device of the atomic machine is
trimmed. -/
def OpenReadQuantum (dev : ScullDev β) (n : Nat) (c : MemCall β) : Prop :=
  dev.qset = [] ∧ dev.qsetLen = defaultQset ∧
    ∃ tun qset qsetLen, c = opening .wronly { dev with qset := qset, qsetLen := qsetLen } tun n

/-- `__scull_trim` has read the length of the arrays. -/
def OpenReadQset (dev : ScullDev β) (n : Nat) (c : MemCall β) : Prop :=
  dev.qset = [] ∧ ∃ tun qset, c = opening .wronly { dev with qset := qset } tun n

/-- `__scull_trim` is through. -/
def OpenTrimmed (dev : ScullDev β) (n : Nat) (c : MemCall β) : Prop :=
  ∃ tun, c = opening .wronly dev tun n

/-- The statement that reads the quantum is where the device is trimmed. -/
theorem trim_reads_quantum
    (hP : ∀ e : MemEffect β, e.ret = .done 0 →
      Entails (MemSection i [(.act (.openDev i .wronly {}), .effect e)] OpenReadQuantum) P) :
    Entails (MemSection i [] OpenEmptied) (After memSharing (memAbstraction stale i)
      (fun c _ => some { c with dev.quantumLen := c.tun.scullQuantum }) P) := by
  have hfree : TunFree (OpenEmptied (β := β)) := by
    rintro dev n c tun ⟨_, rfl⟩
    exact ⟨tun, rfl⟩
  refine section_commit hfree.framed ?_
  rintro a c k c' ⟨hi, htun, hqset, hshaped⟩ ⟨hlive, tun, rfl⟩ hf
  cases hf
  obtain ⟨e, hret, hstep⟩ : ∃ e : MemEffect β, e.ret = .done 0 ∧
      a.step stale (.openDev i .wronly {}) = some ({ a with
        devices := Function.update a.devices i (scullTrim a.tun (a.devices i)).1 }, e) :=
    ⟨{ freed := (scullTrim a.tun (a.devices i)).2, ret := .done 0 }, rfl,
      by simp [MemState.step, MemState.locked, hi, hlive]⟩
  refine ⟨[(.act (.openDev i .wronly {}), .effect e)], _, .one (MemState.op_step_act hstep),
    ⟨hi, htun, hqset, ?_⟩, hP e hret _ _ _ _ ?_⟩
  · exact (MemState.mem_step_sound hstep).shaped hshaped
  refine ⟨rfl, rfl, ?_, ?_⟩
  · show (Function.update a.devices i _ i).stuck = false
    rw [Function.update_self]
    exact hlive
  · show OpenReadQuantum (Function.update a.devices i _ i) a.next _
    have hsame : tun = a.tun := htun.symm
    rw [Function.update_self]
    refine ⟨rfl, hqset, tun, (a.devices i).qset, (a.devices i).qsetLen, ?_⟩
    rw [hsame]
    rfl

/-- `scull_open` returns zero after it has trimmed the device. -/
theorem open_returns {e : MemEffect β} (hret : e.ret = .done 0) :
    Entails (MemSection i [(.act (.openDev i .wronly {}), .effect e)] OpenTrimmed)
      (Unlocked memSharing (memAbstraction stale i)
        ((Prog.ret true fun c _ => { c with ssret := .ok 0 } : MemProg β).wp memSharing
          (memAbstraction stale i) (served stale i (.open_ .wronly)))) := by
  have hfree : TunFree (OpenTrimmed (β := β)) := by
    rintro dev n c tun ⟨_, rfl⟩
    exact ⟨tun, rfl⟩
  refine section_unlock hfree.framed ?_
  rintro a c hbase ⟨hlive, tun, rfl⟩
  exact ⟨[], a, .nil a, hbase, ⟨rfl, rfl, hlive⟩,
    mem_returned (fun _ _ => rfl) fun _ _ _ => ⟨_, e, rfl, hret⟩⟩

/-- The precondition of `scull_open`. -/
theorem wp_open (mode : AccMode) :
    Entails (Outside memSharing [] (MemRequest.open_ (β := β) mode).data)
    (openStatements.wp memSharing (memAbstraction stale i) (served stale i (.open_ mode))) := by
  simp only [openStatements, trimStatements, update, lockOrRestart, Prog.block, Prog.wp]
  refine outside_test (fun _ _ hmode => ?_) fun _ _ hmode => outside_always ?_
  · obtain rfl : mode = .wronly := eq_of_beq hmode
    intro held a trace c hc
    refine ⟨mem_lock ?_ _ _ _ _ hc, mem_return (b := .openDev i .wronly { intr := true })
      (e := { ret := .failed .ERESTARTSYS }) ?_ ?_ ?_ _ _ _ _ hc⟩
    · refine mem_always (tun_free_entered _) (mem_update (L := OpenEmptied)
        (tun_free_entered _) ?_ (trim_reads_quantum fun e hret => ?_))
      · rintro dev n c - - ⟨tun, rfl⟩
        exact ⟨⟨tun, rfl⟩, rfl⟩
      · refine mem_update (L := OpenReadQset) ?_ ?_ (mem_update (L := OpenTrimmed) ?_ ?_
          (open_returns hret))
        · rintro dev n c tun ⟨hqset, hlen, -, qset, qsetLen, rfl⟩
          exact ⟨hqset, hlen, tun, qset, qsetLen, rfl⟩
        · rintro dev n c - htun ⟨hqset, hlen, tun, qset, qsetLen, rfl⟩
          refine ⟨⟨hqset, tun, qset, ?_⟩, rfl⟩
          have hsame : tun.scullQset = dev.qsetLen := htun.trans hlen.symm
          show opening .wronly { dev with qset := qset, qsetLen := tun.scullQset } tun n = _
          rw [hsame]
        · rintro dev n c tun ⟨hqset, -, qset, rfl⟩
          exact ⟨hqset, tun, qset, rfl⟩
        · rintro dev n c - - ⟨hqset, tun, qset, rfl⟩
          refine ⟨⟨tun, ?_⟩, rfl⟩
          show opening .wronly { dev with qset := [] } tun n = _
          rw [← hqset]
    · exact fun _ _ => rfl
    · intro a hi
      simp [MemState.step, MemState.locked, hi]
    · exact fun _ _ _ => ⟨_, _, rfl, rfl⟩
  · refine mem_return (b := .openDev i mode {}) (e := { ret := .done 0 }) ?_ ?_ ?_
    · exact fun _ _ => rfl
    · intro a hi
      have hne : mode ≠ .wronly := by
        rintro rfl
        cases hmode
      simp only [MemState.step, if_neg hne, if_pos hi]
    · exact fun _ _ _ => ⟨_, _, rfl, rfl⟩

end Open

section System

variable {stale : Nat → Nat → β} {i : Nat}

/-- A dump has printed the device. -/
def Dumped (dev : ScullDev β) (n : Nat) (c : MemCall β) : Prop :=
  c.dev = dev ∧ c.next = n ∧ c.shown = some dev

/-- The precondition of `scull_seq_show`. -/
theorem wp_seq_show : Entails (Outside memSharing [] (MemRequest.seqShow (β := β)).data)
    ((MemFn.seqShow.prog stale).wp memSharing (memAbstraction stale i)
      (served stale i .seqShow)) := by
  simp only [MemFn.prog, Calls.scullSeqShow, update, lockOrRestart, Prog.block, Prog.wp]
  intro held a trace c hc
  refine ⟨mem_lock ?_ _ _ _ _ hc, ?_⟩
  · have hdumped : TunFree (Dumped (β := β)) := fun _ _ _ _ h => h
    refine mem_update (L := Dumped) (tun_free_entered _) ?_ (section_unlock hdumped.framed ?_)
    · rintro dev n c - - ⟨tun, rfl⟩
      exact ⟨⟨rfl, rfl, rfl⟩, rfl⟩
    · rintro a c hbase ⟨hlive, hdev, hnext, hshown⟩
      have hstep : a.opStep stale (.dump i false) = some (a, .dumped (.ok (a.devices i))) := by
        simp [MemState.opStep, MemState.dump, hlive]
      refine ⟨[(.dump i false, .dumped (.ok (a.devices i)))], a, .one hstep, hbase,
        ⟨hdev, hnext, hlive⟩, mem_returned (fun _ _ => rfl) ?_⟩
      exact fun _ _ _ => ⟨_, _, rfl, congrArg (Option.map _) hshown⟩
  · have hstep : ∀ a : MemState β,
        a.opStep stale (.dump i true) = some (a, .dumped (.error .ERESTARTSYS)) := fun _ => rfl
    exact outside_return [(.dump i true, .dumped (.error .ERESTARTSYS))] (fun _ _ => rfl)
      (fun a _ _ => .one (hstep a))
      (fun _ _ _ => ⟨rfl, fun _ => ⟨_, _, rfl, rfl⟩⟩) _ _ _ _ hc

/-- An ioctl leaves `scull_qset` alone or sets it to its default. -/
theorem scull_ioctl_qset (tun : Tunables) (o : IoctlCall) (h : tun.scullQset = defaultQset) :
    (scullIoctl tun o.cmd o.arg o.env).tunables.scullQset = defaultQset := by
  have huser : (getUserQuantum tun o.env.user).1.scullQset = defaultQset := by
    unfold getUserQuantum
    split <;> exact h
  rcases scull_ioctl_cases tun o.cmd o.arg o.env with ⟨c, -, heq⟩ | ⟨-, err, heq⟩
  · rw [heq]
    cases c with
    | iocreset => rfl
    | iocsquantum =>
        simp only [ioctlSwitch]
        split
        · exact huser
        · exact h
    | ioctquantum | iochquantum =>
        simp only [ioctlSwitch]
        split <;> exact h
    | iocxquantum =>
        simp only [ioctlSwitch]
        split
        · split
          · rename_i hget
            rw [hget] at huser
            exact huser
          · rename_i hget
            rw [hget] at huser
            exact huser
        · exact h
    | iocgquantum | iocqquantum | pIoctsize | pIocqsize => exact h
  · rw [heq]
    exact h

/-- The calls on a memory device and the ioctls follow the atomic machine. -/
theorem mem_verified (stale : Nat → Nat → β) (i : Nat) :
    Verified (memSystem stale) (memAbstraction stale i) (MemRequest.Served i)
      fun o => .act (.ioctl o.cmd o.arg o.env) where
  calls x a g hbase := by
    cases x with
    | open_ mode => exact wp_open mode _ _ _ _ ⟨rfl, rfl, g, rfl⟩
    | read pos count fits => exact wp_read fits _ _ _ _ ⟨rfl, rfl, g, rfl⟩
    | write pos data fits => exact wp_write fits _ _ _ _ ⟨rfl, rfl, g, rfl⟩
    | seqShow => exact wp_seq_show _ _ _ _ ⟨rfl, rfl, g, rfl⟩
  outside o a g hbase := by
    obtain ⟨hi, htun, hqset, hshaped⟩ := hbase
    have hsame : (scullIoctl a.tun o.cmd o.arg o.env).tunables =
        (scullIoctl g.tun o.cmd o.arg o.env).tunables := by rw [htun]
    refine ⟨_, _, rfl, ⟨hi, hsame, scull_ioctl_qset a.tun o hqset, hshaped⟩,
      .inr ⟨(scullIoctl a.tun o.cmd o.arg o.env).tunables, Prod.ext rfl ?_⟩, id⟩
    show ({ g with tun := (scullIoctl g.tun o.cmd o.arg o.env).tunables } : MemShared β) = _
    rw [hsame]

end System

end Ldd3.Scull
