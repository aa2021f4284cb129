import Ldd3.Jiq.Steps

/-!
# Where the callbacks of jiq print

A callback prints where the shared field `m` points when it runs. That is the file of the show call
that scheduled it, and the call is still there, as long as one call at a time is busy: a call sets
`m` only when nobody else has work on the way, and no signal makes it return while its callback may
still print. `Isolated` is the invariant of such runs: at most one `Duty` is open, and it is in
order.
-/

namespace Ldd3.Jiq

namespace View

/-- A callback scheduled by call `c` may still print. -/
def MayPrint (v : View) (c : Nat) : Prop :=
  ∃ k, v.pending k = some c ∨ ∃ pc, v.running k = some (c, pc) ∧ pc.prints = true

/-- No callback is queued or runs, and no call has set `m` and has still to schedule one. -/
def Idle (v : View) : Prop :=
  (∀ k, v.pending k = none) ∧ (∀ k, v.running k = none) ∧
    ∀ c call, v.calls c = some call → call.pc.between = false

/-- The step does not overlap with another call: a call sets `m` only when nothing is on the way,
and a signal does not end the sleep of a call whose callback may still print. The show function of
the timer needs no such care, since it waits for its callback. -/
def Isolates (v : View) : Action → Prop
  | .call c _ => ∀ call, v.calls c = some call →
      (call.pc = .setM → v.Idle) ∧
        ∀ phase, call.pc = .sleep phase → call.kind ≠ .timer → EndsBySignal v call phase →
          ¬ v.MayPrint c
  | _ => True

end View

/-- Something on the way to a print: a call that has to schedule its callback, a callback that is
queued, and one that runs. -/
inductive Duty where
  | call (c : Nat)
  | queued (k : Kind) (c : Nat)
  | runs (k : Kind) (c : Nat) (pc : CallbackPc)

/-- The call a duty belongs to. -/
def Duty.owner : Duty → Nat
  | call c | queued _ c | runs _ c _ => c

/-- The call cannot have returned before its callback is done: a work has to wake it, the tasklet
has to set `end`, and the timer is waited for in any case. -/
def ShowCall.Stays (call : ShowCall) (end_ : Bool) : Prop :=
  match call.kind with
  | .wq | .wqDelayed => call.pc = .sleep (.sched false)
  | .tasklet => (∃ phase, call.pc = .sleep phase) ∧ end_ = false
  | .timer => (∃ phase, call.pc = .sleep phase) ∨ call.pc = .delTimer

/-- What a call has to keep before it schedules its callback, so that it then stays. -/
def ShowCall.Ready (call : ShowCall) (end_ : Bool) : Prop :=
  (∀ woken, call.pc = .enqueue woken → woken = false) ∧
    (call.kind = .tasklet → call.pc = .schedule → end_ = false)

/-- A call that stays is asleep or waits for its timer. -/
theorem ShowCall.Stays.asleep {call : ShowCall} {end_ : Bool} (h : call.Stays end_) :
    (∃ phase, call.pc = .sleep phase) ∨ (call.kind = .timer ∧ call.pc = .delTimer) := by
  unfold ShowCall.Stays at h
  split at h
  case h_1 => exact .inl ⟨_, h⟩
  case h_2 => exact .inl ⟨_, h⟩
  case h_3 => exact .inl h.1
  case h_4 hkind => exact h.imp_right fun hpc => ⟨hkind, hpc⟩

/-- A call that has scheduled a work stays. -/
theorem ShowCall.stays_work {kind : Kind} {signal end_ : Bool} (hkind : kind.work = true) :
    ShowCall.Stays ⟨kind, .sleep (.sched false), signal⟩ end_ := by
  cases kind with
  | wq | wqDelayed => rfl
  | tasklet | timer => cases hkind

/-- A call that has scheduled the tasklet or the timer stays. -/
theorem ShowCall.stays_event {kind : Kind} {phase : Wait} {signal end_ : Bool}
    (hkind : kind.work = false) (hend : kind = .tasklet → end_ = false) :
    ShowCall.Stays ⟨kind, .sleep phase, signal⟩ end_ := by
  cases kind with
  | wq | wqDelayed => cases hkind
  | tasklet => exact ⟨⟨_, rfl⟩, hend rfl⟩
  | timer => exact .inl ⟨_, rfl⟩

namespace View

variable {v v' : View} {c : Nat} {call : ShowCall} {k : Kind} {d : Duty}

/-- The duties of a view. -/
def Has (v : View) : Duty → Prop
  | .call c => ∃ call, v.calls c = some call ∧ call.pc.between = true
  | .queued k c => v.pending k = some c
  | .runs k c pc => v.running k = some (c, pc)

/-- Call `c` waits for the callback of `k`. -/
def Waits (v : View) (k : Kind) (c : Nat) : Prop :=
  ∃ call, v.calls c = some call ∧ call.kind = k ∧ call.Stays v.end_

/-- Call `c` is about to schedule its callback. -/
def Prepares (v : View) (c : Nat) : Prop := ∀ call, v.calls c = some call → call.Ready v.end_

/-- The callback of `k` needs that call `c` has not returned. -/
def Needs (v : View) (k : Kind) (c : Nat) : Prop :=
  v.pending k = some c ∨ ∃ pc, v.running k = some (c, pc) ∧ (k = .timer ∨ pc.prints = true)

/-- The duty is in order: `m` points to the file of its owner, and the owner waits for it as long
as the callback may print. -/
def InOrder (v : View) : Duty → Prop
  | .call c => v.m = some c ∧ v.Prepares c
  | .queued k c => v.m = some c ∧ v.Waits k c
  | .runs k c pc => v.m = some c ∧ (∀ f, pc.file = some f → f = some c) ∧
      (k = .timer ∨ pc.prints = true → v.Waits k c)

/-- At most one duty is open, and it is in order. -/
structure Isolated (v : View) : Prop where
  unique : ∀ d d', v.Has d → v.Has d' → d = d'
  inOrder : ∀ d, v.Has d → v.InOrder d

/-- An idle view has no duty. -/
theorem Idle.not_has (h : v.Idle) : ¬ v.Has d := by
  obtain ⟨hpending, hrunning, hcalls⟩ := h
  intro hd
  cases d with
  | call c =>
      obtain ⟨call, hcall, hbetween⟩ := hd
      rw [hcalls c call hcall] at hbetween
      cases hbetween
  | queued k c => cases (hpending k).symm.trans hd
  | runs k c pc => cases (hrunning k).symm.trans hd

/-- A view without duties is isolated. -/
theorem Isolated.of_none (h : ∀ d, ¬ v.Has d) : v.Isolated :=
  ⟨fun d _ hd => absurd hd (h d), fun d hd => absurd hd (h d)⟩

/-- A view with one duty is isolated if it is in order. -/
theorem Isolated.of_one (d : Duty) (h : ∀ d', v.Has d' → d' = d) (hd : v.InOrder d) :
    v.Isolated :=
  ⟨fun _ _ h₁ h₂ => (h _ h₁).trans (h _ h₂).symm, fun d' hd' => h d' hd' ▸ hd⟩

/-- A step that opens no duty keeps the view isolated if what is open stays in order. -/
theorem Isolated.of_subset (hv : v.Isolated) (hsub : ∀ d, v'.Has d → v.Has d)
    (horder : ∀ d, v'.Has d → v.InOrder d → v'.InOrder d) : v'.Isolated :=
  ⟨fun d d' hd hd' => hv.unique d d' (hsub d hd) (hsub d' hd'),
    fun d hd => horder d hd (hv.inOrder d (hsub d hd))⟩

/-- What keeps a duty in order. -/
theorem InOrder.mono (hd : v.InOrder d) (hm : v'.m = v.m)
    (hprepares : v.Prepares d.owner → v'.Prepares d.owner)
    (hwaits : ∀ k, v.Waits k d.owner → v'.Waits k d.owner) : v'.InOrder d := by
  cases d with
  | call c => exact ⟨hm.trans hd.1, hprepares hd.2⟩
  | queued k c => exact ⟨hm.trans hd.1, hwaits k hd.2⟩
  | runs k c pc => exact ⟨hm.trans hd.1, hd.2.1, fun h => hwaits k (hd.2.2 h)⟩

/-- A duty whose owner is not touched stays in order. -/
theorem InOrder.frame (hd : v.InOrder d) (hm : v'.m = v.m) (hend : v'.end_ = v.end_)
    (hcalls : v'.calls d.owner = v.calls d.owner) : v'.InOrder d := by
  refine hd.mono hm (fun h call hcall => ?_) (fun k h => ?_)
  · rw [hend]
    exact h call (hcalls ▸ hcall)
  · obtain ⟨call, hcall, hkind, hstays⟩ := h
    exact ⟨call, hcalls ▸ hcall, hkind, hend ▸ hstays⟩

/-- What a changed entry of a table can be read back as. -/
theorem update_lookup {α β : Type*} [DecidableEq α] {f : α → β} {a b : α} {x y : β}
    (h : Function.update f a x b = y) : (b = a ∧ x = y) ∨ (b ≠ a ∧ f b = y) := by
  rw [Function.update_apply] at h
  split at h
  case isTrue hb => exact .inl ⟨hb, h⟩
  case isFalse hb => exact .inr ⟨hb, h⟩

/-- The duties after a call has changed. -/
theorem has_update {call' : ShowCall}
    (h : Has { v with calls := Function.update v.calls c (some call') } d) :
    (d = .call c ∧ call'.pc.between = true) ∨ (d ≠ .call c ∧ v.Has d) := by
  cases d with
  | call c' =>
      obtain ⟨found, hfound, hbetween⟩ := h
      rcases update_lookup hfound with ⟨rfl, heq⟩ | ⟨hc, hfound⟩
      · cases heq
        exact .inl ⟨rfl, hbetween⟩
      · exact .inr ⟨fun heq => hc (Duty.call.inj heq), found, hfound, hbetween⟩
  | queued k' c' => exact .inr ⟨nofun, h⟩
  | runs k' c' pc' => exact .inr ⟨nofun, h⟩

/-- The duties after a step of a callback. -/
theorem has_proceed {pc : CallbackPc} (h : (v.proceed k c pc).Has d) :
    d = .runs k c pc ∨ ((∀ c' pc', d ≠ .runs k c' pc') ∧ v.Has d) := by
  cases d with
  | call c' => exact .inr ⟨nofun, h⟩
  | queued k' c' => exact .inr ⟨nofun, h⟩
  | runs k' c' pc' =>
      rcases update_lookup h with ⟨rfl, heq⟩ | ⟨hk, h⟩
      · cases heq
        exact .inl rfl
      · exact .inr ⟨fun _ _ heq => hk (Duty.runs.inj heq).1, h⟩

/-- The duties after a callback has ended. -/
theorem has_finish (h : (v.finish k).Has d) : (∀ c pc, d ≠ .runs k c pc) ∧ v.Has d := by
  cases d with
  | call c' => exact ⟨nofun, h⟩
  | queued k' c' => exact ⟨nofun, h⟩
  | runs k' c' pc' =>
      rcases update_lookup h with ⟨rfl, heq⟩ | ⟨hk, h⟩
      · cases heq
      · exact ⟨fun _ _ heq => hk (Duty.runs.inj heq).1, h⟩

/-- The duties after the queue of `k` has changed. -/
theorem has_pending {slot : Option Nat}
    (h : Has { v with pending := Function.update v.pending k slot } d) :
    (∃ c, slot = some c ∧ d = .queued k c) ∨ ((∀ c, d ≠ .queued k c) ∧ v.Has d) := by
  cases d with
  | call c' => exact .inr ⟨nofun, h⟩
  | queued k' c' =>
      rcases update_lookup h with ⟨rfl, heq⟩ | ⟨hk, h⟩
      · exact .inl ⟨c', heq, rfl⟩
      · exact .inr ⟨fun _ heq => hk (Duty.queued.inj heq).1, h⟩
  | runs k' c' pc' => exact .inr ⟨nofun, h⟩

/-- A wake-up does not change whether a call has still to schedule its callback. -/
theorem between_wake (pc : ShowPc) : pc.wake.between = pc.between := by
  cases pc <;> rfl

/-- A wake-up opens no duty. -/
theorem has_wake_up (h : v.wakeUp.Has d) : v.Has d := by
  cases d with
  | call c' =>
      obtain ⟨found, hfound, hbetween⟩ := h
      obtain ⟨call, hcall, rfl⟩ := Option.map_eq_some_iff.mp hfound
      exact ⟨call, hcall, (between_wake call.pc).symm.trans hbetween⟩
  | queued k' c' => exact h
  | runs k' c' pc' => exact h

/-- The duties do not depend on `m` and `end`. -/
theorem has_data {m : Option Nat} {end_ : Bool} (h : Has { v with m := m, end_ := end_ } d) :
    v.Has d := by
  cases d <;> exact h

/-- The only open duty. -/
theorem Isolated.eq_of_has (hv : v.Isolated) {d₀ : Duty} (h₀ : v.Has d₀) (h : v.Has d) : d = d₀ :=
  hv.unique d d₀ h h₀

/-- While a call has to schedule its callback, no callback is queued. -/
theorem Isolated.pending_eq_none (hv : v.Isolated) {d₀ : Duty} (h₀ : v.Has d₀)
    (hne : ∀ c, d₀ ≠ .queued k c) : v.pending k = none := by
  cases hk : v.pending k with
  | none => rfl
  | some c => exact absurd (hv.eq_of_has (d := .queued k c) h₀ hk).symm (hne c)

/-- A call that has to schedule its callback goes on. -/
theorem Isolated.go_prepares (hv : v.Isolated) (hcall : v.calls c = some call)
    (hbetween : call.pc.between = true) {end_ : Bool} {pc : ShowPc}
    (hready : ShowCall.Ready { call with pc := pc } end_) :
    Isolated ({ v with end_ := end_ }.go c call pc) := by
  have hduty : v.Has (.call c) := ⟨call, hcall, hbetween⟩
  refine .of_one (.call c) (fun d hd => ?_) ⟨(hv.inOrder _ hduty).1, fun call' hcall' => ?_⟩
  · rcases has_update hd with ⟨rfl, -⟩ | ⟨-, hd⟩
    · rfl
    · exact hv.eq_of_has hduty (has_data hd)
  · cases (Function.update_self c _ v.calls).symm.trans hcall'
    exact hready

/-- A call schedules its callback. -/
theorem Isolated.go_schedules (hv : v.Isolated) (hcall : v.calls c = some call)
    (hbetween : call.pc.between = true) {pc : ShowPc} (hpc : pc.between = false)
    (hstays : call.Ready v.end_ → ShowCall.Stays { call with pc := pc } v.end_) :
    Isolated ((v.schedule call.kind c).go c call pc) := by
  have hduty : v.Has (.call c) := ⟨call, hcall, hbetween⟩
  obtain ⟨hm, hready⟩ := hv.inOrder _ hduty
  have hnone : v.pending call.kind = none := hv.pending_eq_none hduty nofun
  refine .of_one (.queued call.kind c) (fun d hd => ?_) ⟨hm, ?_⟩
  · rcases has_update hd with ⟨-, hpc'⟩ | ⟨hne, hd⟩
    · cases hpc.symm.trans hpc'
    · rcases has_pending hd with ⟨c', hslot, rfl⟩ | ⟨-, hd⟩
      · rw [hnone] at hslot
        cases hslot
        rfl
      · exact absurd (hv.eq_of_has hduty hd) hne
  · exact ⟨_, Function.update_self c _ v.calls, rfl, hstays (hready call hcall)⟩

/-- A running callback goes on. -/
theorem Isolated.proceed_runs (hv : v.Isolated) {pc pc' : CallbackPc}
    (hrunning : v.running k = some (c, pc)) (hsub : ∀ d, v'.Has d → v.Has d)
    (horder : v.InOrder (.runs k c pc) → (v'.proceed k c pc').InOrder (.runs k c pc')) :
    (v'.proceed k c pc').Isolated := by
  have hduty : v.Has (.runs k c pc) := hrunning
  refine .of_one (.runs k c pc') (fun d hd => ?_) (horder (hv.inOrder _ hduty))
  rcases has_proceed hd with rfl | ⟨hne, hd⟩
  · rfl
  · exact absurd (hv.eq_of_has hduty (hsub d hd)) (hne c pc)

/-- A running callback ends. -/
theorem Isolated.finish_runs (hv : v.Isolated) {pc : CallbackPc}
    (hrunning : v.running k = some (c, pc)) (hsub : ∀ d, v'.Has d → v.Has d) :
    (v'.finish k).Isolated := by
  have hduty : v.Has (.runs k c pc) := hrunning
  refine .of_none fun d hd => ?_
  obtain ⟨hne, hd⟩ := has_finish hd
  exact hne c pc (hv.eq_of_has hduty (hsub d hd))

/-- A callback that is queued starts to run. -/
theorem Isolated.run_queued (hv : v.Isolated) (hpending : v.pending k = some c) :
    Isolated ({ v with pending := Function.update v.pending k none }.proceed k c
      (.print .readLen)) := by
  have hduty : v.Has (.queued k c) := hpending
  obtain ⟨hm, hwaits⟩ := hv.inOrder _ hduty
  refine .of_one (.runs k c (.print .readLen)) (fun d hd => ?_) ⟨hm, nofun, fun _ => hwaits⟩
  rcases has_proceed hd with rfl | ⟨-, hd⟩
  · rfl
  · rcases has_pending hd with ⟨_, hslot, -⟩ | ⟨hne, hd⟩
    · cases hslot
    · exact absurd (hv.eq_of_has hduty hd) (hne c)

/-- A callback schedules itself again and ends. -/
theorem Isolated.schedule_again (hv : v.Isolated) {pc : CallbackPc}
    (hrunning : v.running k = some (c, pc)) (hprints : pc.prints = true) :
    ((v.schedule k c).finish k).Isolated := by
  have hduty : v.Has (.runs k c pc) := hrunning
  obtain ⟨hm, -, hwaits⟩ := hv.inOrder _ hduty
  have hnone : v.pending k = none := hv.pending_eq_none hduty nofun
  refine .of_one (.queued k c) (fun d hd => ?_) ⟨hm, hwaits (.inr hprints)⟩
  obtain ⟨hne, hd⟩ := has_finish hd
  rcases has_pending hd with ⟨c', hslot, rfl⟩ | ⟨-, hd⟩
  · rw [hnone] at hslot
    cases hslot
    rfl
  · exact absurd (hv.eq_of_has hduty hd) (hne c pc)

/-- The call that waits. -/
theorem Waits.of_call (h : v.Waits k c) (hcall : v.calls c = some call) :
    call.kind = k ∧ call.Stays v.end_ := by
  obtain ⟨call', hcall', hkind, hstays⟩ := h
  cases hcall.symm.trans hcall'
  exact ⟨hkind, hstays⟩

/-- A call changes without opening a duty, and stays as long as its callback needs it. -/
theorem Isolated.update_call (hv : v.Isolated) {call' : ShowCall}
    (hbetween : call'.pc.between = true → v.Has (.call c))
    (hready : v.Has (.call c) → v.Prepares c → call'.Ready v.end_)
    (hstays : ∀ k, v.Waits k c → v.Needs k c → call'.kind = k ∧ call'.Stays v.end_) :
    Isolated { v with calls := Function.update v.calls c (some call') } := by
  have hself := Function.update_self c (some call') v.calls
  have hsub : ∀ d, Has { v with calls := Function.update v.calls c (some call') } d → v.Has d := by
    intro d hd
    rcases has_update hd with ⟨rfl, hpc⟩ | ⟨-, hd⟩
    · exact hbetween hpc
    · exact hd
  refine hv.of_subset hsub (fun d hd horder => ?_)
  by_cases howner : d.owner = c
  · cases d with
    | call c' =>
        cases howner
        refine ⟨horder.1, fun call hcall => ?_⟩
        cases hself.symm.trans hcall
        exact hready (hsub _ hd) horder.2
    | queued k c' =>
        cases howner
        exact ⟨horder.1, call', hself, hstays k horder.2 (.inl hd)⟩
    | runs k c' pc =>
        cases howner
        refine ⟨horder.1, horder.2.1, fun h => ⟨call', hself, ?_⟩⟩
        exact hstays k (horder.2.2 h) (.inr ⟨pc, hd, h⟩)
  · exact horder.frame rfl rfl (Function.update_of_ne howner _ v.calls)

/-- A call that does not stay is not waited for. -/
theorem Waits.false_of_awake (h : v.Waits k c) (hcall : v.calls c = some call)
    (hsleep : ∀ phase, call.pc ≠ .sleep phase) (htimer : call.pc ≠ .delTimer) : False := by
  rcases (h.of_call hcall).2.asleep with ⟨phase, hpc⟩ | ⟨-, hpc⟩
  · exact hsleep phase hpc
  · exact htimer hpc

/-- A call whose step concerns nobody else. -/
theorem Isolated.move (hv : v.Isolated) (hcall : v.calls c = some call) {pc : ShowPc}
    (hmoves : Moves call.kind call.pc pc) : (v.go c call pc).Isolated := by
  obtain ⟨kind, pc₀, signal⟩ := call
  cases hmoves with
  | begins | returns =>
      refine hv.update_call nofun (fun _ _ => ⟨nofun, nofun⟩) (fun k hwaits _ => ?_)
      exact (hwaits.false_of_awake hcall nofun nofun).elim
  | joins =>
      refine hv.update_call (fun _ => ⟨_, hcall, rfl⟩) (fun _ _ => ⟨?_, nofun⟩)
        (fun k hwaits _ => (hwaits.false_of_awake hcall nofun nofun).elim)
      intro woken hpc
      cases hpc
      rfl
  | prints | printed =>
      refine hv.update_call (fun _ => ⟨_, hcall, rfl⟩) (fun _ _ => ⟨nofun, nofun⟩)
        (fun k hwaits _ => (hwaits.false_of_awake hcall nofun nofun).elim)
  | sleeps hkind =>
      refine hv.update_call nofun (fun _ _ => ⟨nofun, nofun⟩) (fun k hwaits _ => ?_)
      obtain ⟨rfl, hstays⟩ := hwaits.of_call hcall
      refine ⟨rfl, ?_⟩
      cases kind with
      | wq | wqDelayed => cases hkind
      | tasklet => exact ⟨⟨_, rfl⟩, hstays.2⟩
      | timer => exact .inl ⟨_, rfl⟩

/-- A call leaves its sleep. -/
theorem Isolated.leave (hv : v.Isolated) (hcall : v.calls c = some call) {phase : Wait}
    {pc : ShowPc} (hpc : call.pc = .sleep phase) (hleaves : Leaves v call phase pc)
    (hsignal : call.kind ≠ .timer → EndsBySignal v call phase → ¬ v.MayPrint c) :
    (v.go c call pc).Isolated := by
  obtain ⟨kind, pc₀, signal⟩ := call
  cases hpc
  refine hv.update_call ?_ (fun _ _ => ?_) (fun k hwaits hneeds => ?_)
  · cases hleaves <;> exact nofun
  · cases hleaves <;> exact ⟨nofun, nofun⟩
  · obtain ⟨rfl, hstays⟩ := hwaits.of_call hcall
    cases hleaves with
    | woken hkind => cases kind with
      | wq | wqDelayed => cases hstays
      | tasklet | timer => cases hkind
    | done hkind hend =>
        cases hkind
        cases hend.symm.trans hstays.2
    | signalled hkind hends =>
        refine absurd ⟨kind, ?_⟩ (hsignal hkind hends)
        refine hneeds.imp_right fun ⟨pc, hrunning, hpc⟩ => ⟨pc, hrunning, ?_⟩
        exact hpc.resolve_left hkind
    | timer hkind =>
        cases hkind
        exact ⟨rfl, .inr rfl⟩

/-- The show function of the timer has waited for its callback. -/
theorem Isolated.sync (hv : v.Isolated) (hcall : v.calls c = some call) (hpc : call.pc = .delTimer)
    (hidle : v.running .timer = none) :
    Isolated ({ v with pending := Function.update v.pending .timer none }.go c call .leave) := by
  have hcancel : Isolated { v with pending := Function.update v.pending .timer none } := by
    refine hv.of_subset (fun d hd => ?_) (fun d _ horder => horder.frame rfl rfl rfl)
    rcases has_pending hd with ⟨_, hslot, -⟩ | ⟨-, hd⟩
    · cases hslot
    · exact hd
  refine hcancel.update_call nofun (fun _ _ => ⟨nofun, nofun⟩) (fun k hwaits hneeds => ?_)
  obtain ⟨hkind, hstays⟩ := hwaits.of_call hcall
  rcases hstays.asleep with ⟨phase, hsleep⟩ | ⟨htimer, -⟩
  · cases hpc.symm.trans hsleep
  · obtain rfl : k = .timer := hkind.symm.trans htimer
    rcases hneeds with hpending | ⟨_, hrunning, -⟩
    · cases (Function.update_self Kind.timer none v.pending).symm.trans hpending
    · cases hidle.symm.trans hrunning

/-- The call of `jiq_print` in the show function of the timer wakes the queue. -/
theorem Isolated.show_wake (hv : v.Isolated) (hcall : v.calls c = some call)
    (hpc : call.pc = .print .wake) : (v.wakeUp.go c call (.print (.ret false))).Isolated := by
  have hduty : v.Has (.call c) := ⟨call, hcall, by rw [hpc]; rfl⟩
  have hsame : v.wakeUp.calls c = some call := by
    obtain ⟨kind, pc, signal⟩ := call
    cases hpc
    exact congrArg (Option.map ShowCall.wake) hcall
  have hwoken : v.wakeUp.Isolated := by
    refine .of_one (.call c) (fun d hd => hv.eq_of_has hduty (has_wake_up hd)) ?_
    obtain ⟨hm, hready⟩ := hv.inOrder _ hduty
    refine ⟨hm, fun call' hcall' => ?_⟩
    cases hsame.symm.trans hcall'
    exact hready call hcall
  exact hwoken.go_prepares hsame (by rw [hpc]; rfl) ⟨nofun, nofun⟩

/-- A call of the timer stays, whatever `end` is. -/
theorem Waits.timer_end (h : v.Waits .timer c) (end_ : Bool) :
    Waits { v with end_ := end_ } .timer c := by
  obtain ⟨⟨kind, pc, signal⟩, hcall, hkind, hstays⟩ := h
  cases hkind
  exact ⟨_, hcall, rfl, hstays⟩

/-- A call of the timer stays when the queue is woken. -/
theorem Waits.timer_wake_up (h : v.Waits .timer c) : v.wakeUp.Waits .timer c := by
  obtain ⟨⟨kind, pc, signal⟩, hcall, hkind, hstays⟩ := h
  cases hkind
  refine ⟨_, congrArg (Option.map ShowCall.wake) hcall, rfl, ?_⟩
  rcases hstays with ⟨phase, hpc⟩ | hpc
  · cases hpc
    exact .inl ⟨_, rfl⟩
  · cases hpc
    exact .inr rfl

/-- Every step that does not overlap with another call keeps the view isolated. -/
theorem Isolated.step {a : Action} {e : Event} (hv : v.Isolated) (hstep : ViewStep v a e v')
    (hguard : v.Isolates a) : v'.Isolated := by
  cases hstep with
  | starts hnew =>
      refine hv.update_call nofun (fun _ _ => ⟨nofun, nofun⟩) (fun k hwaits _ => ?_)
      obtain ⟨call, hcall, -⟩ := hwaits
      cases hnew.symm.trans hcall
  | signals hcall =>
      refine hv.update_call (fun h => ⟨_, hcall, h⟩) (fun _ hready => ?_) (fun k hwaits _ => ?_)
      · obtain ⟨henqueue, htasklet⟩ := hready _ hcall
        exact ⟨henqueue, htasklet⟩
      · obtain ⟨hkind, hstays⟩ := hwaits.of_call hcall
        exact ⟨hkind, hstays⟩
  | moves hcall hmoves => exact hv.move hcall hmoves
  | setsM hcall hpc =>
      have hidle := (hguard _ hcall).1 hpc
      refine .of_one (.call _) (fun d hd => ?_) ⟨rfl, fun call' hcall' => ?_⟩
      · rcases has_update hd with ⟨rfl, -⟩ | ⟨-, hd⟩
        · rfl
        · exact absurd (has_data hd) hidle.not_has
      · cases (Function.update_self _ _ v.calls).symm.trans hcall'
        exact ⟨nofun, nofun⟩
  | setsRest hcall hpc hbetween hjoined hend =>
      refine hv.go_prepares hcall (by rw [hpc]; rfl) ⟨fun woken h => absurd h (hjoined woken), ?_⟩
      exact fun htasklet _ => hend htasklet
  | showEnds hcall hkind hpc =>
      exact hv.go_prepares hcall (by rw [hpc]; rfl) ⟨nofun, nofun⟩
  | showWakes hcall hkind hpc => exact hv.show_wake hcall hpc
  | enqueues hcall hkind hpc =>
      refine hv.go_schedules hcall (by rw [hpc]; rfl) rfl fun hready => ?_
      obtain rfl := hready.1 _ hpc
      exact ShowCall.stays_work hkind
  | schedules hcall hkind hpc =>
      refine hv.go_schedules hcall (by rw [hpc]; rfl) rfl fun hready => ?_
      exact ShowCall.stays_event hkind fun htasklet => hready.2 htasklet hpc
  | leaves hcall hpc hleaves =>
      exact hv.leave hcall hpc hleaves ((hguard _ hcall).2 _ hpc)
  | synced hcall hpc hidle => exact hv.sync hcall hpc hidle
  | runs hpending hidle => exact hv.run_queued hpending
  | proceeds hrunning hfile hprints =>
      refine hv.proceed_runs hrunning (fun _ hd => hd) fun ⟨hm, hlocal, hwaits⟩ => ?_
      refine ⟨hm, fun f hf => ?_, fun h => hwaits (h.imp_right hprints)⟩
      rcases hfile f hf with hf | rfl
      · exact hlocal f hf
      · exact hm
  | prints hrunning hfile hfile' hprints =>
      refine hv.proceed_runs hrunning (fun _ hd => hd) fun ⟨hm, hlocal, hwaits⟩ => ?_
      exact ⟨hm, fun f hf => hlocal f (hfile' f hf), fun _ => hwaits (.inr hprints)⟩
  | callbackEnds hrunning hfile hprints =>
      refine hv.proceed_runs hrunning (fun _ hd => has_data hd) fun ⟨hm, hlocal, hwaits⟩ => ?_
      refine ⟨hm, fun f hf => ?_, fun h => ?_⟩
      · cases hfile.symm.trans hf
      · obtain rfl := h.resolve_right (by rw [hprints]; nofun)
        exact (hwaits (.inl rfl)).timer_end true
  | callbackWakes hrunning =>
      refine hv.proceed_runs hrunning (fun _ hd => has_wake_up hd) fun ⟨hm, hlocal, hwaits⟩ => ?_
      refine ⟨hm, nofun, fun h => ?_⟩
      obtain rfl := h.resolve_right nofun
      exact (hwaits (.inl rfl)).timer_wake_up
  | timerWakes hrunning => exact hv.finish_runs hrunning fun _ hd => has_wake_up hd
  | finishes hrunning => exact hv.finish_runs hrunning fun _ hd => hd
  | again hrunning => exact hv.schedule_again hrunning rfl

/-- A callback of an isolated view prints to the file of the call that scheduled it, and the call
has not returned. -/
theorem Isolated.prints {a : Action} {m : Nat} (hv : v.Isolated)
    (hstep : ViewStep v a (.callbackPrints c m) v') :
    m = c ∧ ∃ call, v.calls m = some call ∧ call.pc ≠ .returned := by
  cases hstep with
  | moves _ _ hevent => exact absurd rfl (hevent c m)
  | prints hrunning hfile _ hprints =>
      obtain ⟨-, hlocal, hwaits⟩ := hv.inOrder (.runs _ c _) hrunning
      obtain rfl := Option.some.inj (hlocal _ hfile)
      obtain ⟨call, hcall, -, hstays⟩ := hwaits (.inr hprints)
      refine ⟨rfl, call, hcall, fun hreturned => ?_⟩
      rcases hstays.asleep with ⟨_, hpc⟩ | ⟨-, hpc⟩
      · cases hreturned.symm.trans hpc
      · cases hreturned.symm.trans hpc

end View

namespace JiqState

/-- In every run in which a call sets `m` only when nothing is on the way, and no signal ends the
sleep of a call whose callback may still print: a callback prints to the file of the show call that
scheduled it, and only as long as that call has not returned. -/
theorem output_isolated (delay : BitVec 64) (actions : List Action)
    (hguard : ∀ s a e t, Machine.Takes (step delay) init actions s a e t → s.view.Isolates a)
    {s t : JiqState} {a : Action} {c m : Nat}
    (htake : Machine.Takes (step delay) init actions s a (.callbackPrints c m) t) :
    m = c ∧ ∃ call, s.calls m = some call ∧ call.pc ≠ .returned := by
  have hinit : init.view.Isolated := .of_none fun d hd => by
    cases d with
    | call c =>
        obtain ⟨_, hcall, -⟩ := hd
        cases hcall
    | queued k c => cases hd
    | runs k c pc => cases hd
  have hisolated : s.view.Isolated := htake.source.invariant_of_guard
    (I := fun s => s.view.Isolated) (G := fun s a _ _ => s.view.Isolates a)
    (fun s a e t hs hguard hstep => hs.step (view_step hstep) hguard) hinit hguard
  exact hisolated.prints (view_step htake.step_eq)

section Runs

/-! Runs of `jiqwq`, with the time standing still. -/

/-- `n` steps of call `c`. -/
def callSteps (c n : Nat) : List Action := List.replicate n (.call c ⟨0, 40⟩)

/-- The work starts, and `n` steps of it follow. -/
def workSteps (n : Nat) : List Action := .run .wq :: List.replicate n (.callback .wq ⟨0, 40⟩)

/-- A reader schedules the work and sleeps, and the work is about to print its first line. -/
def singleRead : List Action := .start 0 .wq 4096 :: (callSteps 0 5 ++ workSteps 3)

/-- A call that neither sets `m` nor sleeps overlaps with nobody. -/
theorem isolates_of_pc {s : JiqState} {c : Nat} {call : ShowCall} {env : Env}
    (hcall : s.calls c = some call) (hset : call.pc ≠ .setM)
    (hsleep : ∀ phase, call.pc ≠ .sleep phase) : s.view.Isolates (.call c env) := by
  intro call' hcall'
  cases hcall.symm.trans hcall'
  exact ⟨fun hpc => absurd hpc hset, fun phase hpc => absurd hpc (hsleep phase)⟩

/-- The work of a single reader prints to its file. -/
theorem output_isolated_single : ∃ s t call,
    Machine.Takes (step 1) init (singleRead ++ [.callback .wq ⟨0, 40⟩]) s (.callback .wq ⟨0, 40⟩)
      (.callbackPrints 0 0) t ∧ s.calls 0 = some call ∧ call.pc ≠ .returned := by
  have hrun : ∃ s es t, Machine.run (step 1) init singleRead = some (s, es) ∧
      step 1 s (.callback .wq ⟨0, 40⟩) = some (t, .callbackPrints 0 0) := ⟨_, _, _, rfl, rfl⟩
  obtain ⟨s, es, t, hrun, hstep⟩ := hrun
  have htake := Machine.takes_of_run hrun hstep
  have hguard : ∀ s a e t, Machine.Takes (step 1) init (singleRead ++ [.callback .wq ⟨0, 40⟩])
      s a e t → s.view.Isolates a := by
    refine Machine.forall_takes_cons rfl trivial ?_
    refine Machine.forall_takes_cons rfl (isolates_of_pc rfl nofun nofun) ?_
    refine Machine.forall_takes_cons rfl ?_ ?_
    · intro call hcall
      cases hcall
      refine ⟨fun _ => ⟨fun _ => rfl, fun _ => rfl, fun c call hcall => ?_⟩, nofun⟩
      rcases View.update_lookup hcall with ⟨-, heq⟩ | ⟨hne, hcall⟩
      · cases heq
        rfl
      · cases (Function.update_of_ne hne _ _).symm.trans hcall
    iterate 3 refine Machine.forall_takes_cons rfl (isolates_of_pc rfl nofun nofun) ?_
    iterate 5 refine Machine.forall_takes_cons rfl trivial ?_
    exact Machine.forall_takes_nil
  obtain ⟨-, call, hcall, hpc⟩ := output_isolated 1 _ hguard htake
  exact ⟨s, t, call, htake, hcall, hpc⟩

/-- A second reader sets `m` before the work of the first one has run. -/
def overlappingReads : List Action :=
  .start 0 .wq 4096 :: (callSteps 0 5 ++ .start 1 .wq 4096 :: (callSteps 1 2 ++ workSteps 3))

/-- A signal ends the sleep of a reader, and the call returns before its work has run. -/
def signalledRead : List Action :=
  .start 0 .wq 4096 :: (callSteps 0 5 ++ .signal 0 :: (callSteps 0 2 ++ workSteps 3))

/-- In the first run the work scheduled by call 0 prints to the file of call 1. In the second it
prints to the file of call 0, which has returned. -/
theorem output_not_isolated :
    (∃ s t, Machine.Takes (step 1) init (overlappingReads ++ [.callback .wq ⟨0, 40⟩]) s
      (.callback .wq ⟨0, 40⟩) (.callbackPrints 0 1) t) ∧
    ∃ s t call, Machine.Takes (step 1) init (signalledRead ++ [.callback .wq ⟨0, 40⟩]) s
      (.callback .wq ⟨0, 40⟩) (.callbackPrints 0 0) t ∧ s.calls 0 = some call ∧
      call.pc = .returned :=
  ⟨⟨_, _, Machine.takes_of_run rfl rfl⟩, ⟨_, _, _, Machine.takes_of_run rfl rfl, rfl, rfl⟩⟩

end Runs

end JiqState

end Ldd3.Jiq
