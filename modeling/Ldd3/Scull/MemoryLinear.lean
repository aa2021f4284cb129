import Ldd3.Scull.MemorySerial

/-!
# The calls on a memory device are linearizable

What the preconditions of `MemorySerial` are for: `mem_linearizable_iff` puts the calls of a run on
a device and the ioctls in one order. The order exists exactly if `scull_qset` has its default,
because only then it does not matter that `__scull_trim` reads the tunables in two statements.
-/

namespace Ldd3.Scull

open Calls

variable {β : Type}

section System

variable {stale : Nat → Nat → β} {i : Nat}

/-- The states of the calls on a device. -/
abbrev MemPool (β : Type) := Pool (MemRequest β) (MemCall β) (MemEnv β) Site (MemShared β)

/-- What happens on a device. -/
abbrev MemEvent (β : Type) := PoolAction (MemRequest β) (MemChoice β) IoctlCall

/-- A device after the module was loaded, without calls. -/
def MemPool.init (tun : Tunables) : MemPool β :=
  ⟨⟨⟨[], tun.scullQuantum, tun.scullQset, 0, false⟩, tun, 0⟩, []⟩

/-- An ioctl on the atomic machine. -/
def ioctlOp (o : IoctlCall) : MemOp β := .act (.ioctl o.cmd o.arg o.env)

/-- The calls on device `i` have done what the atomic machine does in the order of the history `h`.
Each call that has returned has its entry with its result, and the ioctls have theirs. -/
structure Serialized (stale : Nat → Nat → β) (i : Nat) (tun : Tunables) (nrDevs : Nat)
    (events : List (MemEvent β)) (s : MemPool β) (h : History (MemOp β) (MemOut β)) :
    Prop where
  run : ∃ a, Machine.run (MemState.opStep stale) (.init tun nrDevs) (h.map fun w => w.2.1) =
      some (a, h.map fun w => w.2.2) ∧ s.shared.tun = a.tun ∧
    (s.Free → s.shared.dev = a.devices i ∧ s.shared.next = a.next)
  returned (j : Nat) (x : MemRequest β) (c : Config (MemCall β) (MemEnv β) Site) :
    s.calls[j]? = some (x, c) → c.todo = [] → x.Served i (h.trace j) c.data
  started (j : Nat) (w : MemOp β × MemOut β) : (some j, w) ∈ h → j < s.calls.length
  ioctls : h.others = (PoolAction.outsides events).map ioctlOp

/-- What the library says of the system. -/
theorem serialized_of_serial {tun : Tunables} {nrDevs : Nat} {events : List (MemEvent β)}
    {s : MemPool β} {a : MemState β} {h : History (MemOp β) (MemOut β)}
    (hs : s.Serial (memSystem stale) (memAbstraction stale i) (MemRequest.Served i)
      (.init tun nrDevs) a h)
    (hothers : h.others = (PoolAction.outsides events).map ioctlOp) :
    Serialized stale i tun nrDevs events s h where
  run := by
    have hrun := hs.commits
    unfold Abstraction.Commits at hrun
    rw [List.map_map, List.map_map] at hrun
    exact ⟨a, hrun, hs.base.2.1.symm, fun hfree => ⟨(hs.inv hfree).1, (hs.inv hfree).2.1⟩⟩
  returned j x c hc htodo := by
    have hcall := hs.calls j x c hc
    rw [htodo] at hcall
    have hserved := hcall.2 (memSharing.get c.data)
    cases x <;> exact hserved
  started := hs.started
  ioctls := hothers

end System

section Torn

variable {stale : Nat → Nat → β} {i : Nat}

/-- A privileged `ioctl` that sets the quantum to 4001. -/
def setQuantum : IoctlCall :=
  ⟨IoctlCmd.ioctquantum.number, 4001, ⟨fun _ _ => true, true, none, true⟩⟩

/-- `SCULL_IOCRESET`. -/
def resetTunables : IoctlCall := ⟨IoctlCmd.iocreset.number, 0, ⟨fun _ _ => true, true, none, true⟩⟩

/-- The tunables after the first. -/
theorem set_quantum_tunables (tun : Tunables) :
    (scullIoctl tun setQuantum.cmd setQuantum.arg setQuantum.env).tunables =
      { tun with scullQuantum := 4001 } := by
  rw [setQuantum, scull_ioctl_number _ _ _ _ rfl]
  rfl

/-- The tunables after the second. -/
theorem reset_tunables_tunables (tun : Tunables) :
    (scullIoctl tun resetTunables.cmd resetTunables.arg resetTunables.env).tunables =
      { tun with scullQuantum := defaultQuantum, scullQset := defaultQset } := by
  rw [resetTunables, scull_ioctl_number _ _ _ _ rfl]
  rfl

/-- An open in its section, with these statements left. -/
def opened (g : MemShared β) (todo : List (MemProg β)) : MemPool β :=
  ⟨g, [(.open_ .wronly, ⟨todo.map .run ++ [.run (.ret true fun c _ => { c with ssret := .ok 0 })],
    opening .wronly g.dev g.tun g.next, true⟩)]⟩

/-- An open takes the lock. -/
theorem open_locks (stale : Nat → Nat → β) (g : MemShared β) :
    Machine.run (Pool.step (memSystem stale))
        ⟨g, [(.open_ .wronly, .start openStatements (MemRequest.open_ .wronly).data)]⟩
        (List.replicate 4 (.act 0 {})) =
      some (opened g [.seq trimStatements .unlock], List.replicate 4 ()) := rfl

/-- The statements of `__scull_trim` after the one that reads the quantum. -/
def restOfTrim : List (MemProg β) :=
  [.seq (update fun c => { c with dev.qsetLen := c.tun.scullQset })
    (update fun c => { c with dev.qset := [] }), .unlock]

/-- The open reads the quantum. -/
theorem open_reads_quantum (stale : Nat → Nat → β) (g : MemShared β) :
    Machine.run (Pool.step (memSystem stale)) (opened g [.seq trimStatements .unlock])
        (List.replicate 7 (.act 0 {})) =
      some (opened { g with dev.len := 0, dev.quantumLen := g.tun.scullQuantum } restOfTrim,
        List.replicate 7 ()) := rfl

/-- The open reads the length of the arrays and returns. -/
theorem open_reads_qset (stale : Nat → Nat → β) (g g' : MemShared β) :
    Machine.run (Pool.step (memSystem stale)) { opened g restOfTrim with shared := g' }
        (List.replicate 5 (.act 0 {})) =
      some (⟨{ g' with dev.qsetLen := g'.tun.scullQset, dev.qset := [] }, [(.open_ .wronly, ⟨[],
        opening .wronly { g'.dev with qsetLen := g'.tun.scullQset, qset := [] } g'.tun g'.next,
        false⟩)]⟩, List.replicate 5 ()) := rfl

/-- The quantum is set, and the reset comes while `__scull_trim` has read the quantum but not yet
the length of the arrays. -/
def tornTrim : List (MemEvent β) :=
  [.outside setQuantum, .start (.open_ .wronly)] ++ (List.replicate 4 (.act 0 {}) ++
    (List.replicate 7 (.act 0 {}) ++ ([.outside resetTunables] ++ List.replicate 5 (.act 0 {}))))

/-- The device then has the old quantum and the new length of the arrays. -/
def tornPool (tun : Tunables) : MemPool β :=
  let dev : ScullDev β := ⟨[], 4001, defaultQset, 0, false⟩
  let tun := { tun with scullQuantum := defaultQuantum, scullQset := defaultQset }
  ⟨⟨dev, tun, 0⟩, [(.open_ .wronly, ⟨[], opening .wronly dev tun 0, false⟩)]⟩

theorem torn_trim_run (stale : Nat → Nat → β) (tun : Tunables) :
    ∃ us, Machine.run (Pool.step (memSystem stale)) (MemPool.init tun) tornTrim =
      some (tornPool tun, us) := by
  have hset : Machine.run (Pool.step (memSystem stale)) (MemPool.init tun)
      [.outside setQuantum, .start (.open_ .wronly)] =
      some (⟨⟨⟨[], tun.scullQuantum, tun.scullQset, 0, false⟩,
        { tun with scullQuantum := 4001 }, 0⟩,
        [(.open_ .wronly, .start openStatements (MemRequest.open_ .wronly).data)]⟩, [(), ()]) := by
    simp [Machine.run, Pool.step, memSystem, MemPool.init, set_quantum_tunables, MemRequest.prog]
  have hreset : ∀ g : MemShared β, Machine.run (Pool.step (memSystem stale)) (opened g restOfTrim)
      [.outside resetTunables] = some ({ opened g restOfTrim with shared := { g with tun :=
        { g.tun with scullQuantum := defaultQuantum, scullQset := defaultQset } } }, [()]) := by
    intro g
    simp [Machine.run, Pool.step, memSystem, opened, reset_tunables_tunables]
  rw [tornTrim, Machine.run_append hset, Machine.run_append (open_locks stale _),
    Machine.run_append (open_reads_quantum stale _), Machine.run_append (hreset _),
    open_reads_qset]
  exact ⟨_, rfl⟩

/-- An open that succeeds trims the device. -/
theorem open_trims {a a' : MemState β} {ch : MemChoice β} {e : MemEffect β}
    (hstep : a.opStep stale (.act (.openDev i .wronly ch)) = some (a', .effect e))
    (hret : e.ret = .done 0) :
    a' = { a with devices := Function.update a.devices i (scullTrim a.tun (a.devices i)).1 } := by
  obtain ⟨⟨b, e'⟩, hopen, heq⟩ := Option.map_eq_some_iff.mp hstep
  cases heq
  cases MemState.mem_step_sound hopen with
  | openInterrupted => cases hret
  | opened _ _ _ hmode => exact absurd rfl hmode
  | trimmed => rfl

/-- Two steps from outside and one of the only call come in one of three orders. -/
theorem history_orders {δ ε : Type} {h : History δ ε} {x y : δ} {w : δ × ε}
    (hothers : h.others = [x, y]) (htrace : h.trace 0 = [w])
    (hcalls : ∀ j w, (some j, w) ∈ h → j < 1) :
    ∃ e f, h = [(some 0, w), (none, x, e), (none, y, f)] ∨
      h = [(none, x, e), (some 0, w), (none, y, f)] ∨
      h = [(none, x, e), (none, y, f), (some 0, w)] := by
  have hkeys : ∀ v ∈ h, v.1 = none ∨ v.1 = some 0 := by
    rintro ⟨key, v⟩ hmem
    cases key with
    | none => exact .inl rfl
    | some j =>
        obtain rfl : j = 0 := Nat.lt_one_iff.mp (hcalls j v hmem)
        exact .inr rfl
  unfold History.others at hothers
  unfold History.trace at htrace
  -- a fourth entry would belong to one of the two lists
  rcases h with _ | ⟨⟨k, v⟩, _ | ⟨⟨k', v'⟩, _ | ⟨⟨k'', v''⟩, _ | ⟨⟨k₄, v₄⟩, rest⟩⟩⟩⟩
  · cases htrace
  · rcases hkeys (k, v) (by simp) with rfl | rfl <;> simp at hothers
  · rcases hkeys (k, v) (by simp) with rfl | rfl <;>
      rcases hkeys (k', v') (by simp) with rfl | rfl <;> simp at hothers htrace
  · rcases hkeys (k, v) (by simp) with rfl | rfl <;>
      rcases hkeys (k', v') (by simp) with rfl | rfl <;>
      rcases hkeys (k'', v'') (by simp) with rfl | rfl <;> simp at hothers htrace
    · obtain ⟨rfl, rfl⟩ := hothers
      subst htrace
      exact ⟨v.2, v'.2, .inr (.inr rfl)⟩
    · obtain ⟨rfl, rfl⟩ := hothers
      subst htrace
      exact ⟨v.2, v''.2, .inr (.inl rfl)⟩
    · obtain ⟨rfl, rfl⟩ := hothers
      subst htrace
      exact ⟨v'.2, v''.2, .inl rfl⟩
  · rcases hkeys (k, v) (by simp) with rfl | rfl <;>
      rcases hkeys (k', v') (by simp) with rfl | rfl <;>
      rcases hkeys (k'', v'') (by simp) with rfl | rfl <;>
      rcases hkeys (k₄, v₄) (by simp) with rfl | rfl <;> simp at hothers htrace

/-- No order of the three calls leads there. -/
theorem torn_pool_not_serialized {tun : Tunables} {nrDevs : Nat}
    (hqset : tun.scullQset ≠ defaultQset) (h : History (MemOp β) (MemOut β)) :
    ¬ Serialized stale i tun nrDevs tornTrim (tornPool tun) h := by
  intro hs
  obtain ⟨a, hrun, -, hshared⟩ := hs.run
  have hfree : (tornPool tun : MemPool β).Free := by simp [tornPool, Pool.Free]
  have hdev : (tornPool tun : MemPool β).shared.dev = a.devices i := (hshared hfree).1
  have hlens : (a.devices i).quantumLen = 4001 ∧ (a.devices i).qsetLen = defaultQset := by
    rw [← hdev]
    exact ⟨rfl, rfl⟩
  obtain ⟨ch, e, htrace, hret⟩ := hs.returned 0 _ _ rfl rfl
  have hothers : h.others = [ioctlOp setQuantum, ioctlOp resetTunables] := hs.ioctls
  obtain ⟨e₁, e₂, rfl | rfl | rfl⟩ := history_orders hothers htrace hs.started
  · have hq : (a.devices i).qsetLen = tun.scullQset := by
      obtain ⟨a₁, _, _, hopen, hrest, heq⟩ := Machine.run_cons_eq_some.mp hrun
      cases heq
      rw [open_trims hopen hret] at hrest
      cases hrest
      simp [scullTrim, MemState.init]
    exact hqset (hq.symm.trans hlens.2)
  · have hq : (a.devices i).qsetLen = tun.scullQset := by
      obtain ⟨a₁, _, _, hset, hrest, heq⟩ := Machine.run_cons_eq_some.mp hrun
      obtain ⟨a₂, _, _, hopen, hlast, heq'⟩ := Machine.run_cons_eq_some.mp hrest
      cases heq'
      cases heq
      cases hset
      rw [open_trims hopen hret] at hlast
      cases hlast
      simp [scullTrim, MemState.init, set_quantum_tunables]
    exact hqset (hq.symm.trans hlens.2)
  · have hq : (a.devices i).quantumLen = defaultQuantum := by
      obtain ⟨a₁, _, _, hset, hrest, heq⟩ := Machine.run_cons_eq_some.mp hrun
      obtain ⟨a₂, _, _, hreset, hlast, heq'⟩ := Machine.run_cons_eq_some.mp hrest
      obtain ⟨a₃, _, _, hopen, hend, heq''⟩ := Machine.run_cons_eq_some.mp hlast
      cases heq''
      cases heq'
      cases heq
      cases hset
      cases hreset
      rw [open_trims hopen hret] at hend
      cases hend
      simp [scullTrim, MemState.init, reset_tunables_tunables]
    exact absurd (hq.symm.trans hlens.1) (by decide)

end Torn

/-- The calls on a memory device can be put in one order. However the statements of any number of
opens, reads, writes and dumps of a device and the ioctls interleave, there is one order for the run
that grows with it: after every step the device is what the atomic machine makes of the calls in
that order, every call that has returned has its one entry with its result, which it has executed in
one of its own steps, and the ioctls have theirs in the order in which they came. This holds exactly
if the module was loaded with the default `scull_qset`: otherwise a `SCULL_IOCRESET` between the two
statements of `__scull_trim` that read the tunables gives a device the old quantum and the new
length of the arrays. -/
theorem mem_linearizable_iff (stale : Nat → Nat → β) {i nrDevs : Nat} (tun : Tunables)
    (hi : i < nrDevs) :
    (∀ (actions : List (MemEvent β)) (t : MemPool β) (us : List Unit),
      Machine.run (Pool.step (memSystem stale)) (MemPool.init tun) actions = some (t, us) →
      ∃ h : Nat → History (MemOp β) (MemOut β),
        Pool.Ordered (memSystem stale) ioctlOp (MemPool.init tun) actions h ∧
        ∀ k s vs, k ≤ actions.length →
          Machine.run (Pool.step (memSystem stale)) (MemPool.init tun) (actions.take k) =
            some (s, vs) → Serialized stale i tun nrDevs (actions.take k) s (h k)) ↔
      tun.scullQset = defaultQset := by
  constructor
  · intro hall
    by_contra hqset
    obtain ⟨us, hrun⟩ := torn_trim_run stale tun
    obtain ⟨h, -, hs⟩ := hall tornTrim _ us hrun
    have hend := hs tornTrim.length (tornPool tun) us (Nat.le_refl _)
    rw [List.take_length] at hend
    exact torn_pool_not_serialized hqset _ (hend hrun)
  · intro hqset actions t us hrun
    obtain ⟨h, hordered, hserial⟩ := Pool.ordered_run (mem_verified stale i)
      ⟨hi, rfl, hqset, MemState.shaped_init tun nrDevs⟩ ⟨rfl, rfl, rfl⟩ hrun
    refine ⟨h, hordered, fun k s vs hk hs => ?_⟩
    obtain ⟨a, ha⟩ := hserial k s vs hs
    exact serialized_of_serial ha (hordered.others hk)

/-- With the default parameters of the module. -/
theorem mem_linearizable_default : 0 < 4 ∧
    ∀ (actions : List (MemEvent UInt8)) (t : MemPool UInt8) (us : List Unit),
      Machine.run (Pool.step (memSystem fun _ _ => 0)) (MemPool.init ⟨4000, 1000, 4000⟩) actions =
        some (t, us) →
      ∃ h : Nat → History (MemOp UInt8) (MemOut UInt8),
        Pool.Ordered (memSystem fun _ _ => 0) ioctlOp (MemPool.init ⟨4000, 1000, 4000⟩) actions h ∧
        ∀ k s vs, k ≤ actions.length →
          Machine.run (Pool.step (memSystem fun _ _ => 0)) (MemPool.init ⟨4000, 1000, 4000⟩)
              (actions.take k) = some (s, vs) →
            Serialized (fun _ _ => 0) 0 ⟨4000, 1000, 4000⟩ 4 (actions.take k) s (h k) :=
  ⟨by decide, (mem_linearizable_iff (fun _ _ => 0) ⟨4000, 1000, 4000⟩ (by decide : 0 < 4)).mpr rfl⟩

end Ldd3.Scull
