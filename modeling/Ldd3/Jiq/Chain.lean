import Ldd3.Jiq.Steps

/-!
# One show call alone

As long as one show call is the only one, the calls of `jiq_print` made on its behalf follow each
other. Their `Account` is where they are, the field `len` of the `clientdata` and the buffer of the
file. `AccountStep` lists what a step of the module can do to it, and `solo_step` says that the list
is complete: in a run with one show call nothing else prints or touches `len`.
-/

namespace Ldd3.Jiq

/-- Where a show call is in its sequence of calls of `jiq_print`. -/
inductive Stage where
  | absent
  /-- `len` is still that of an earlier show call -/
  | fresh
  /-- the next call of `jiq_print` is prepared or queued -/
  | due
  | printing (pc : PrintPc)
  /-- no further call follows -/
  | ended
  deriving DecidableEq, Repr

/-- The stage of a show call without a callback. -/
def ShowPc.stage : ShowPc → Stage
  | setLen => .fresh
  | setM | setRest | prepare | enqueue _ | schedule => .due
  | print pc => .printing pc
  | sleep _ | delTimer | leave | returned => .ended

/-- The stage of a running callback. -/
def CallbackPc.stage : CallbackPc → Stage
  | print pc => .printing pc
  | setEnd | wake => .ended

/-- The file that `jiq_print` has read in a show function, if it still needs it. -/
def ShowPc.file : ShowPc → Option (Option Nat)
  | print pc => pc.file
  | _ => none

/-- What the calls of `jiq_print` for one show call work on. -/
structure Account where
  stage : Stage
  len : BitVec 32
  file : SeqFile
  deriving DecidableEq, Repr

/-- The kernel runs a callback, or lets it go on. -/
def Action.chain : Action → Bool
  | run _ | callback _ _ => true
  | start _ _ _ | call _ _ | signal _ => false

/-- What the step finds outside of the module. -/
def Action.env : Action → Option Env
  | call _ env | callback _ env => some env
  | start _ _ _ | run _ | signal _ => none

/-- Nobody but `c` calls a show function, and `c` calls that of `k`. -/
def Action.Sole (c : Nat) (k : Kind) : Action → Prop
  | start d kind _ => d = c ∧ kind = k
  | _ => True

/-- A step of `jiq_print`. -/
inductive PrintMove (env : Env) : Account → Account → Prop where
  | readLen {len file} :
      PrintMove env ⟨.printing .readLen, len, file⟩ ⟨.printing (.readM len), len, file⟩
  | readM {len file l m} :
      PrintMove env ⟨.printing (.readM l), len, file⟩ ⟨.printing (.test l m env.j), len, file⟩
  | stops {len file l m j} (hlimit : limit < l.signExtend 64) :
      PrintMove env ⟨.printing (.test l m j), len, file⟩ ⟨.printing .setEnd, len, file⟩
  | first {len file m j} :
      PrintMove env ⟨.printing (.test 0 m j), len, file⟩ ⟨.printing (.title m j), len, file⟩
  | next {len file l m j} (hlimit : ¬ limit < l.signExtend 64) (hne : l ≠ 0) :
      PrintMove env ⟨.printing (.test l m j), len, file⟩ ⟨.printing (.line m j 0), len, file⟩
  | title {len file m j} :
      PrintMove env ⟨.printing (.title m j), len, file⟩
        ⟨.printing (.line m j (BitVec.ofNat 32 (file.print titleLength).count)), len,
          file.print titleLength⟩
  | line {len file m j l} :
      PrintMove env ⟨.printing (.line m j l), len, file⟩
        ⟨.printing (.store j (l + BitVec.ofNat 32 (file.print env.n).count)), len,
          file.print env.n⟩
  | store {len file j l} :
      PrintMove env ⟨.printing (.store j l), len, file⟩ ⟨.printing (.ret true), len + l, file⟩
  | setEnd {len file} :
      PrintMove env ⟨.printing .setEnd, len, file⟩ ⟨.printing .wake, len, file⟩
  | wake {len file} :
      PrintMove env ⟨.printing .wake, len, file⟩ ⟨.printing (.ret false), len, file⟩

/-- A step of the module, as the account of its only show call sees it. -/
inductive AccountStep (c : Nat) (k : Kind) : Action → Account → Account → Prop where
  | stays {a acc} (hchain : k ≠ .timer → a.chain = false) : AccountStep c k a acc acc
  | starts {len file size} :
      AccountStep c k (.start c k size) ⟨.absent, len, file⟩ ⟨.fresh, len, ⟨0, size⟩⟩
  | resets {env len file} : AccountStep c k (.call c env) ⟨.fresh, len, file⟩ ⟨.due, 0, file⟩
  | calls {a len file} : AccountStep c k a ⟨.due, len, file⟩ ⟨.printing .readLen, len, file⟩
  | prints {a env acc acc'} (henv : a.env = some env) (hmove : PrintMove env acc acc') :
      AccountStep c k a acc acc'
  | again {a len file} : AccountStep c k a ⟨.printing (.ret true), len, file⟩ ⟨.due, len, file⟩
  | ends {a len file} : AccountStep c k a ⟨.printing (.ret false), len, file⟩ ⟨.ended, len, file⟩
  /-- the show function of the timer does not look at the result, and its callback comes last -/
  | timed {a stage stage' len file} (hkind : k = .timer)
      (hstage : stage = .due ∨ ∃ again, stage = .printing (.ret again))
      (hstage' : stage' = .due ∨ stage' = .ended) :
      AccountStep c k a ⟨stage, len, file⟩ ⟨stage', len, file⟩

namespace JiqState

/-- Where call `c` of the show function of `k` is in its calls of `jiq_print`. -/
def stage (s : JiqState) (c : Nat) (k : Kind) : Stage :=
  match s.running k, s.pending k, s.calls c with
  | some (_, pc), _, _ => pc.stage
  | none, some _, _ => .due
  | none, none, some call => call.pc.stage
  | none, none, none => .absent

/-- The account of call `c`. -/
def account (s : JiqState) (c : Nat) (k : Kind) : Account := ⟨s.stage c k, s.data.len, s.files c⟩

/-- Nothing is on the way: all calls have returned, and no callback is queued or runs. -/
structure Quiet (s : JiqState) : Prop where
  calls : ∀ d call, s.calls d = some call → call.pc = .returned
  idle : ∀ k, s.pending k = none ∧ s.running k = none

/-- A module that has just been loaded is quiet. -/
theorem quiet_init : init.Quiet := by
  refine ⟨fun d call hcall => ?_, fun _ => ⟨rfl, rfl⟩⟩
  cases hcall

/-- Where the next print for call `c` comes from: its show function, a queued callback or one that
runs. -/
inductive Place (s : JiqState) (c : Nat) (k : Kind) : Stage → Prop where
  | absent (hcall : s.calls c = none) (hpending : s.pending k = none)
      (hrunning : s.running k = none) : Place s c k .absent
  | shows {call} (hcall : s.calls c = some call) (hkind : call.kind = k)
      (hpending : s.pending k = none) (hrunning : s.running k = none)
      (hm : call.pc ≠ .setLen → call.pc ≠ .setM → s.data.m = some c)
      (hfile : ∀ f, call.pc.file = some f → f = some c) : Place s c k call.pc.stage
  | queued {call} (hcall : s.calls c = some call) (hkind : call.kind = k)
      (hended : call.pc.stage = .ended) (hpending : s.pending k = some c)
      (hrunning : s.running k = none) (hm : s.data.m = some c) : Place s c k .due
  | runs {call pc} (hcall : s.calls c = some call) (hkind : call.kind = k)
      (hended : call.pc.stage = .ended) (hpending : s.pending k = none)
      (hrunning : s.running k = some (c, pc)) (hm : s.data.m = some c)
      (hfile : ∀ f, pc.file = some f → f = some c)
      (hprint : k ≠ .timer → ∃ p, pc = .print p) : Place s c k pc.stage

/-- Call `c` of the show function of `k` is the only one, and at the given stage. -/
structure Solo (s : JiqState) (c : Nat) (k : Kind) (stage : Stage) : Prop where
  others : ∀ d, d ≠ c → ∀ call, s.calls d = some call → call.pc = .returned
  idle : ∀ k', k' ≠ k → s.pending k' = none ∧ s.running k' = none
  place : s.Place c k stage

/-- A quiet module is ready for a call. -/
theorem Quiet.solo {s : JiqState} {c : Nat} (h : s.Quiet) (hnew : s.calls c = none) (k : Kind) :
    s.Solo c k .absent :=
  ⟨fun d _ => h.calls d, fun k' _ => h.idle k', .absent hnew (h.idle k).1 (h.idle k).2⟩

/-- The stage of the only call is the one it is at. -/
theorem Solo.stage_eq {s : JiqState} {c : Nat} {k : Kind} {stage : Stage}
    (h : s.Solo c k stage) : s.stage c k = stage := by
  cases h.place with
  | absent hcall hpending hrunning => simp [JiqState.stage, hcall, hpending, hrunning]
  | shows hcall _ hpending hrunning => simp [JiqState.stage, hcall, hpending, hrunning]
  | queued _ _ _ hpending hrunning => simp [JiqState.stage, hpending, hrunning]
  | runs _ _ _ _ hrunning => simp [JiqState.stage, hrunning]

variable {s t : JiqState} {e : Event} {env : Env} {c : Nat} {k : Kind} {call : ShowCall}
  {delay : BitVec 64} {stage stage' : Stage}

/-- A step that changes nothing but the call, and the callback it has scheduled. -/
theorem Solo.update (h : s.Solo c k stage)
    (hcalls : ∀ d, d ≠ c → ∀ call, t.calls d = some call →
      ∃ old, s.calls d = some old ∧ (old.pc = .returned → call.pc = .returned))
    (hpending : ∀ k', k' ≠ k → t.pending k' = s.pending k')
    (hrunning : ∀ k', k' ≠ k → t.running k' = s.running k') (hplace : t.Place c k stage') :
    t.Solo c k stage' := by
  refine ⟨fun d hd call hcall => ?_, fun k' hk' => ?_, hplace⟩
  · obtain ⟨old, hold, hpc⟩ := hcalls d hd call hcall
    exact hpc (h.others d hd old hold)
  · rw [hpending k' hk', hrunning k' hk']
    exact h.idle k' hk'

/-- A call that goes on leaves the others alone. -/
theorem go_others (s : JiqState) (call : ShowCall) (pc : ShowPc) :
    ∀ d, d ≠ c → ∀ call', (s.go c call pc).calls d = some call' →
      ∃ old, s.calls d = some old ∧ (old.pc = .returned → call'.pc = .returned) := by
  intro d hd call' hcall'
  simp only [go, Function.update_of_ne hd] at hcall'
  exact ⟨call', hcall', id⟩

/-- A wake-up of `jiq_wait` leaves those that have returned alone. -/
theorem wake_others {calls : Nat → Option ShowCall}
    (h : calls = s.calls ∨ calls = fun d => (s.calls d).map ShowCall.wake) :
    ∀ d, d ≠ c → ∀ call', calls d = some call' →
      ∃ old, s.calls d = some old ∧ (old.pc = .returned → call'.pc = .returned) := by
  intro d _ call' hcall'
  rcases h with rfl | rfl
  · exact ⟨call', hcall', id⟩
  · obtain ⟨old, hold, rfl⟩ := Option.map_eq_some_iff.mp hcall'
    refine ⟨old, hold, fun hpc => ?_⟩
    simp [ShowCall.wake, hpc, ShowPc.wake]

/-- A wake-up does not change the stage of a call. -/
@[simp] theorem stage_wake (pc : ShowPc) : pc.wake.stage = pc.stage := by
  cases pc <;> rfl

/-- What a step of `jiq_print` does to the account. -/
theorem jiq_print_account {pc pc' : PrintPc} {m : Option Nat}
    (h : s.jiqPrint env pc = some (t, pc', m)) (hm : s.data.m = some c)
    (hfile : ∀ f, pc.file = some f → f = some c) :
    PrintMove env ⟨.printing pc, s.data.len, s.files c⟩ ⟨.printing pc', t.data.len, t.files c⟩ ∧
      ∀ f, pc'.file = some f → f = some c := by
  have hunread : ∀ f, (none : Option (Option Nat)) = some f → f = some c := by
    intro f hf
    cases hf
  cases pc with
  | readLen =>
      cases h
      exact ⟨.readLen, hunread⟩
  | readM len =>
      cases h
      exact ⟨.readM, fun f hf => (Option.some.inj hf).symm.trans hm⟩
  | test len file j =>
      simp only [jiqPrint] at h
      split at h
      · cases h
        exact ⟨.stops ‹_›, hunread⟩
      · split at h
        · rename_i hzero
          cases h
          exact ⟨hzero ▸ .first, hfile⟩
        · cases h
          exact ⟨.next ‹_› ‹_›, hfile⟩
  | title file j =>
      obtain rfl := hfile file rfl
      cases h
      refine ⟨?_, hfile⟩
      simpa using PrintMove.title
  | line file j len =>
      obtain rfl := hfile file rfl
      cases h
      refine ⟨?_, hunread⟩
      simpa using PrintMove.line
  | store j len =>
      cases h
      exact ⟨.store, hunread⟩
  | setEnd =>
      cases h
      exact ⟨.setEnd, hunread⟩
  | wake =>
      cases h
      exact ⟨.wake, hunread⟩
  | ret again => cases h

/-- What a step of `jiq_print` leaves alone. -/
theorem jiq_print_keeps {pc pc' : PrintPc} {m : Option Nat}
    (h : s.jiqPrint env pc = some (t, pc', m)) :
    t.data.m = s.data.m ∧ t.pending = s.pending ∧ t.running = s.running ∧
      (t.calls = s.calls ∨ t.calls = fun d => (s.calls d).map ShowCall.wake) := by
  cases jiq_print_outcome h with
  | reads hview | prints hview =>
      exact ⟨congrArg View.m hview, congrArg View.pending hview, congrArg View.running hview,
        .inl (congrArg View.calls hview)⟩
  | ends hview =>
      exact ⟨congrArg View.m hview, congrArg View.pending hview, congrArg View.running hview,
        .inl (congrArg View.calls hview)⟩
  | wakes hview =>
      exact ⟨congrArg View.m hview, congrArg View.pending hview, congrArg View.running hview,
        .inr (congrArg View.calls hview)⟩

/-- `jiq_print` never blocks. -/
theorem jiq_print_enabled {pc : PrintPc} (hret : ∀ again, pc ≠ .ret again)
    (hfile : ∀ f, pc.file = some f → f = some c) (env : Env) :
    ∃ t pc' m, s.jiqPrint env pc = some (t, pc', m) := by
  cases pc with
  | readLen | readM _ | store _ _ | setEnd | wake => exact ⟨_, _, _, rfl⟩
  | test len m j =>
      simp only [jiqPrint]
      split
      · exact ⟨_, _, _, rfl⟩
      · split <;> exact ⟨_, _, _, rfl⟩
  | title m j =>
      obtain rfl := hfile m rfl
      exact ⟨_, _, _, rfl⟩
  | line m j len =>
      obtain rfl := hfile m rfl
      exact ⟨_, _, _, rfl⟩
  | ret again => exact absurd rfl (hret again)

/-- A call that has returned takes no step. -/
theorem show_step_returned (hpc : call.pc = .returned) :
    s.showStep delay c call env = none := by
  unfold showStep
  rw [hpc]
  cases call.kind <;>
    simp [jiqReadWqShow, jiqReadWqDelayedShow, workShow, jiqReadTaskletShow, jiqReadRunTimerShow,
      hpc]

/-- What a show call does after it has scheduled its callback. -/
inductive Sleeps (s : JiqState) (c : Nat) (call : ShowCall) : JiqState → Prop where
  | moves {pc} (hended : pc.stage = .ended) : Sleeps s c call (s.go c call pc)
  | deletes (hkind : call.kind = .timer) (hidle : s.running .timer = none) :
      Sleeps s c call
        ({ s with pending := Function.update s.pending .timer none }.go c call .leave)

/-- The sleep of a reader that waits for `end`. -/
theorem wait_end_sleeps {after : ShowPc} {phase : Wait} (h : s.waitEnd c call after phase = some t)
    (hafter : after.stage = .ended) : Sleeps s c call t := by
  unfold waitEnd at h
  split at h
  case h_1 => cases h
  case h_2 | h_3 =>
      cases h
      exact .moves hafter
  case h_4 =>
      cases h
      exact .moves rfl

/-- A call that has scheduled its callback only sleeps. -/
theorem show_step_sleeps (h : s.showStep delay c call env = some (t, e))
    (hended : call.pc.stage = .ended) : Sleeps s c call t := by
  obtain ⟨kind, pc, signal⟩ := call
  cases pc with
  | setLen | setM | setRest | prepare | enqueue _ | print _ | schedule => cases hended
  | returned =>
      rw [show_step_returned rfl] at h
      cases h
  | leave =>
      cases h
      exact .moves rfl
  | sleep phase =>
      cases kind with
      | wq | wqDelayed =>
          obtain ⟨u, hshow, heq⟩ := Option.map_eq_some_iff.mp h
          cases heq
          simp only [jiqReadWqShow, jiqReadWqDelayedShow, workShow] at hshow
          cases phase with
          | sched woken =>
              simp only at hshow
              split at hshow <;> cases hshow
              exact .moves rfl
          | cond | prepare | test _ | relock => cases hshow
      | tasklet =>
          obtain ⟨u, hshow, heq⟩ := Option.map_eq_some_iff.mp h
          cases heq
          exact wait_end_sleeps hshow rfl
      | timer =>
          obtain ⟨u, hshow, heq⟩ := Option.map_eq_some_iff.mp h
          cases heq
          exact wait_end_sleeps hshow rfl
  | delTimer =>
      cases kind with
      | wq | wqDelayed | tasklet => cases h
      | timer =>
          simp only [showStep, jiqReadRunTimerShow] at h
          split at h <;> cases h
          exact .deletes rfl ‹_›

/-- What a show call does before it has scheduled its callback. -/
inductive Prepares (s : JiqState) (c : Nat) (call : ShowCall) (env : Env) : JiqState → Prop where
  | resets (hpc : call.pc = .setLen) :
      Prepares s c call env ({ s with data := { s.data with len := 0 } }.go c call .setM)
  | setsM (hpc : call.pc = .setM) :
      Prepares s c call env ({ s with data := { s.data with m := some c } }.go c call .setRest)
  | goesOn {data pc} (hdue : call.pc.stage = .due) (hpc : call.pc ≠ .setM)
      (hm : data.m = s.data.m) (hlen : data.len = s.data.len)
      (hnext : pc.stage = .due ∨ call.kind = .timer ∧ pc = .print .readLen) (hlate : pc ≠ .setM) :
      Prepares s c call env ({ s with data := data }.go c call pc)
  | schedules {pc} (hdue : call.pc.stage = .due) (hpc : call.pc ≠ .setM)
      (hended : pc.stage = .ended) :
      Prepares s c call env ((s.schedule call.kind c).go c call pc)
  | prints {u pc pc' m} (hkind : call.kind = .timer) (hpc : call.pc = .print pc)
      (hprint : s.jiqPrint env pc = some (u, pc', m)) :
      Prepares s c call env (u.go c call (.print pc'))
  | printed {again} (hkind : call.kind = .timer) (hpc : call.pc = .print (.ret again)) :
      Prepares s c call env (s.go c call .schedule)

/-- Every step of a call that has not scheduled its callback is one of these. -/
theorem show_step_prepares (h : s.showStep delay c call env = some (t, e))
    (hended : call.pc.stage ≠ .ended) : Prepares s c call env t := by
  obtain ⟨kind, pc, signal⟩ := call
  cases pc with
  | sleep _ | delTimer | leave | returned => exact absurd rfl hended
  | setLen =>
      cases h
      exact .resets rfl
  | setM =>
      cases h
      exact .setsM rfl
  | setRest =>
      cases kind with
      | wq | wqDelayed | tasklet =>
          cases h
          exact .goesOn rfl nofun rfl rfl (.inl rfl) nofun
      | timer =>
          simp only [showStep, jiqReadRunTimerShow] at h
          split at h <;> cases h
          exact .goesOn rfl nofun rfl rfl (.inr ⟨rfl, rfl⟩) nofun
  | prepare =>
      cases kind with
      | wq | wqDelayed =>
          cases h
          exact .goesOn rfl nofun rfl rfl (.inl rfl) nofun
      | tasklet | timer => cases h
  | enqueue woken =>
      cases kind with
      | wq | wqDelayed =>
          cases h
          exact .schedules rfl nofun rfl
      | tasklet | timer => cases h
  | schedule =>
      cases kind with
      | wq | wqDelayed => cases h
      | tasklet =>
          cases h
          exact .schedules rfl nofun rfl
      | timer =>
          simp only [showStep, jiqReadRunTimerShow] at h
          split at h <;> cases h
          exact .schedules rfl nofun rfl
  | print pc =>
      cases kind with
      | wq | wqDelayed | tasklet => cases h
      | timer =>
          cases pc with
          | ret again =>
              cases h
              exact .printed rfl rfl
          | readLen | readM _ | test _ _ _ | title _ _ | line _ _ _ | store _ _ | setEnd | wake =>
              simp only [showStep, jiqReadRunTimerShow] at h
              obtain ⟨⟨u, pc', m⟩, hprint, heq⟩ := Option.map_eq_some_iff.mp h
              cases heq
              exact .prints rfl rfl hprint

/-- A call past its set-up is done with `len` and `m`. -/
theorem late_of_ended {pc : ShowPc} (h : pc.stage = .ended) : pc ≠ .setLen ∧ pc ≠ .setM := by
  constructor
  · rintro rfl
    cases h
  · rintro rfl
    cases h

/-- A call past its set-up needs no file. -/
theorem file_of_ended {pc : ShowPc} (h : pc.stage = .ended) : pc.file = none := by
  cases pc with
  | print _ => cases h
  | _ => rfl

/-- A call that goes on is where it went. -/
@[simp] theorem go_calls (s : JiqState) (call : ShowCall) (pc : ShowPc) :
    (s.go c call pc).calls c = some { call with pc := pc } := by
  simp [go]

/-- The step keeps the call the only one, and does to its account what is listed. -/
def Accounts (s t : JiqState) (a : Action) (c : Nat) (k : Kind) (stage : Stage) : Prop :=
  ∃ stage', t.Solo c k stage' ∧
    AccountStep c k a ⟨stage, s.data.len, s.files c⟩ ⟨stage', t.data.len, t.files c⟩

/-- A sleeping call keeps the order, and only deletes a timer. -/
theorem Solo.sleeps {a : Action} (h : s.Solo c k stage) (hcall : s.calls c = some call)
    (hended : call.pc.stage = .ended) (hchain : a.chain = false) (hstep : Sleeps s c call t) :
    Accounts s t a c k stage := by
  cases hstep with
  | @moves pc hpc =>
      have hmoved : ∀ {stage'}, (s.go c call pc).Place c k stage' → stage' = stage →
          Accounts s (s.go c call pc) a c k stage := by
        rintro _ hplace rfl
        exact ⟨_, h.update (go_others s call pc) (fun _ _ => rfl) (fun _ _ => rfl) hplace,
          .stays fun _ => hchain⟩
      cases h.place with
      | absent hnone => simp [hcall] at hnone
      | shows hcall' hkind hpending hrunning hm hfile =>
          cases hcall.symm.trans hcall'
          have hm' := hm (late_of_ended hended).1 (late_of_ended hended).2
          refine hmoved (.shows (go_calls s call pc) hkind hpending hrunning (fun _ _ => hm') ?_)
            (hpc.trans hended.symm)
          simp [file_of_ended hpc]
      | queued hcall' hkind _ hpending hrunning hm =>
          cases hcall.symm.trans hcall'
          exact hmoved (.queued (go_calls s call pc) hkind hpc hpending hrunning hm) rfl
      | runs hcall' hkind _ hpending hrunning hm hfile hprint =>
          cases hcall.symm.trans hcall'
          exact hmoved (.runs (go_calls s call pc) hkind hpc hpending hrunning hm hfile hprint) rfl
  | deletes htimer hidle =>
      have hdeleted : ∀ {stage'},
          Place ({ s with pending := Function.update s.pending .timer none }.go c call .leave) c
            .timer stage' → k = .timer →
          AccountStep c k a ⟨stage, s.data.len, s.files c⟩ ⟨stage', s.data.len, s.files c⟩ →
          Accounts s ({ s with pending := Function.update s.pending .timer none }.go c call .leave)
            a c k stage := by
        rintro stage' hplace rfl hstep
        refine ⟨stage', h.update (go_others _ call _) (fun k' hk' => ?_) (fun _ _ => rfl) hplace,
          hstep⟩
        simp [go, hk']
      cases h.place with
      | absent hnone => simp [hcall] at hnone
      | shows hcall' hkind hpending hrunning hm hfile =>
          cases hcall.symm.trans hcall'
          have hm' := hm (late_of_ended hended).1 (late_of_ended hended).2
          refine hdeleted (.shows (go_calls _ call _) htimer (by simp [go]) hidle (fun _ _ => hm')
            nofun) (hkind.symm.trans htimer) ?_
          rw [hended]
          exact .stays fun _ => hchain
      | queued hcall' hkind _ hpending hrunning hm =>
          cases hcall.symm.trans hcall'
          exact hdeleted (.shows (go_calls _ call _) htimer (by simp [go]) hidle (fun _ _ => hm)
            nofun) (hkind.symm.trans htimer)
            (.timed (hkind.symm.trans htimer) (.inl rfl) (.inr rfl))
      | runs hcall' hkind _ hpending hrunning =>
          cases hcall.symm.trans hcall'
          obtain rfl : Kind.timer = k := htimer.symm.trans hkind
          simp [hidle] at hrunning

/-- A call that goes on by itself, with the shared data it leaves, stays the only one. -/
theorem Solo.shows_go {data : ClientData} {pc : ShowPc} (h : s.Solo c k stage)
    (hkind : call.kind = k) (hpending : s.pending k = none) (hrunning : s.running k = none)
    (hm : pc ≠ .setLen → pc ≠ .setM → data.m = some c)
    (hfile : ∀ f, pc.file = some f → f = some c) :
    ({ s with data := data }.go c call pc).Solo c k pc.stage :=
  h.update (go_others _ call pc) (fun _ _ => rfl) (fun _ _ => rfl)
    (.shows (go_calls _ call pc) hkind hpending hrunning hm hfile)

/-- A call whose callback is due has set `len`. -/
theorem ne_set_len_of_due {pc : ShowPc} (h : pc.stage = .due) : pc ≠ .setLen := by
  rintro rfl
  cases h

/-- A call that prepares its callback keeps the order. -/
theorem Solo.prepares (h : s.Solo c k stage) (hcall : s.calls c = some call)
    (hstep : Prepares s c call env t) (hbusy : call.pc.stage ≠ .ended) :
    Accounts s t (.call c env) c k stage := by
  cases h.place with
  | absent hnone => simp [hcall] at hnone
  | queued hcall' _ hended =>
      cases hcall.symm.trans hcall'
      exact absurd hended hbusy
  | runs hcall' _ hended =>
      cases hcall.symm.trans hcall'
      exact absurd hended hbusy
  | shows hcall' hkind hpending hrunning hm hfile =>
      cases hcall.symm.trans hcall'
      cases hstep with
      | resets hpc =>
          refine ⟨_, h.shows_go hkind hpending hrunning (fun _ hne => absurd rfl hne) nofun, ?_⟩
          rw [hpc]
          exact .resets
      | setsM hpc =>
          refine ⟨_, h.shows_go hkind hpending hrunning (fun _ _ => rfl) nofun, ?_⟩
          rw [hpc]
          exact .stays fun _ => rfl
      | @goesOn data pc hdue hpc hm' hlen hnext hlate =>
          have hfile' : ∀ f, pc.file = some f → f = some c := by
            intro f hf
            rcases hnext with hnext | ⟨-, rfl⟩
            · cases pc <;> cases hnext <;> cases hf
            · cases hf
          refine ⟨_, h.shows_go hkind hpending hrunning
            (fun _ _ => hm'.trans (hm (ne_set_len_of_due hdue) hpc)) hfile', ?_⟩
          show AccountStep c k _ _ ⟨pc.stage, data.len, s.files c⟩
          rw [hdue, hlen]
          rcases hnext with hnext | ⟨-, rfl⟩
          · rw [hnext]
            exact .stays fun _ => rfl
          · exact .calls
      | @schedules pc hdue hpc hended =>
          refine ⟨_, h.update (go_others _ call _) (fun k' hk' => ?_) (fun _ _ => rfl)
            (.queued (go_calls _ call _) hkind hended ?_ hrunning
              (hm (ne_set_len_of_due hdue) hpc)), ?_⟩
          · simp [go, schedule, hkind, hk']
          · simp [go, schedule, hkind, hpending]
          · rw [hdue]
            exact .stays fun _ => rfl
      | @prints u pc pc' m htimer hpc hprint =>
          rw [hpc] at hm hfile ⊢
          obtain ⟨hmove, hfile'⟩ := jiq_print_account hprint (hm nofun nofun) hfile
          obtain ⟨hm', hpending', hrunning', hcalls⟩ := jiq_print_keeps hprint
          refine ⟨_, ⟨?_, ?_, .shows (go_calls u call _) hkind (hpending' ▸ hpending)
            (hrunning' ▸ hrunning) (fun _ _ => hm'.trans (hm nofun nofun)) hfile'⟩,
            .prints rfl hmove⟩
          · intro d hd call' hcall'
            simp only [go, Function.update_of_ne hd] at hcall'
            obtain ⟨old, hold, hreturned⟩ := wake_others hcalls d hd call' hcall'
            exact hreturned (h.others d hd old hold)
          · intro k' hk'
            show u.pending k' = none ∧ u.running k' = none
            rw [hpending', hrunning']
            exact h.idle k' hk'
      | printed htimer hpc =>
          rw [hpc] at hm ⊢
          refine ⟨_, h.shows_go hkind hpending hrunning (fun _ _ => hm nofun nofun) nofun, ?_⟩
          exact .timed (hkind.symm.trans htimer) (.inr ⟨_, rfl⟩) (.inl rfl)

/-- What is known while the callback runs. -/
structure Running (s : JiqState) (c : Nat) (k : Kind) (pc : CallbackPc) (call : ShowCall) :
    Prop where
  hcall : s.calls c = some call
  hkind : call.kind = k
  hended : call.pc.stage = .ended
  hpending : s.pending k = none
  hm : s.data.m = some c
  hfile : ∀ f, pc.file = some f → f = some c
  hprint : k ≠ .timer → ∃ p, pc = .print p

/-- A callback that runs belongs to the only call. -/
theorem Solo.running {k' : Kind} {d : Nat} {pc : CallbackPc} (h : s.Solo c k stage)
    (hrunning : s.running k' = some (d, pc)) :
    k' = k ∧ d = c ∧ stage = pc.stage ∧ ∃ call, s.Running c k pc call := by
  obtain rfl : k' = k := by
    by_contra hk
    simp [(h.idle k' hk).2] at hrunning
  cases h.place with
  | absent _ _ hnone | shows _ _ _ hnone | queued _ _ _ _ hnone => simp [hrunning] at hnone
  | runs hcall hkind hended hpending hrunning' hm hfile hprint =>
      cases hrunning.symm.trans hrunning'
      exact ⟨rfl, rfl, rfl, _, hcall, hkind, hended, hpending, hm, hfile, hprint⟩

/-- The callback goes on, and nobody else does. -/
theorem Solo.goes_on {pc pc' : CallbackPc} (h : s.Solo c k stage) (hs : s.Running c k pc call)
    (hcalls : t.calls = s.calls ∨ t.calls = fun d => (s.calls d).map ShowCall.wake)
    (hpending : t.pending = s.pending) (hrunning : t.running = s.running)
    (hm : t.data.m = s.data.m) (hfile : ∀ f, pc'.file = some f → f = some c)
    (hprint : k ≠ .timer → ∃ p, pc' = .print p) : (t.proceed k c pc').Solo c k pc'.stage := by
  refine h.update (wake_others hcalls) (fun _ _ => congrFun hpending _) (fun k' hk' => ?_) ?_
  · simp [proceed, hk', hrunning]
  · have hself : (t.proceed k c pc').running k = some (c, pc') := by simp [proceed]
    have hpending' : t.pending k = none := hpending ▸ hs.hpending
    rcases hcalls with hcalls | hcalls
    · exact .runs (hcalls ▸ hs.hcall) hs.hkind hs.hended hpending' hself (hm.trans hs.hm) hfile
        hprint
    · have hcall : t.calls c = some call.wake := by simp [hcalls, hs.hcall]
      exact .runs hcall hs.hkind ((stage_wake _).trans hs.hended) hpending' hself (hm.trans hs.hm)
        hfile hprint

/-- A step of `jiq_print` in the callback. -/
theorem Solo.print_step {pc : PrintPc} (h : s.Solo c k stage)
    (hs : s.Running c k (.print pc) call) (hstep : s.printStep k c pc env = some (t, e)) :
    Accounts s t (.callback k env) c k (.printing pc) := by
  obtain ⟨⟨u, pc', m⟩, hprint, heq⟩ := Option.map_eq_some_iff.mp hstep
  cases heq
  obtain ⟨hm', hpending', hrunning', hcalls⟩ := jiq_print_keeps hprint
  obtain ⟨hmove, hfile'⟩ := jiq_print_account hprint hs.hm hs.hfile
  exact ⟨_, h.goes_on hs hcalls hpending' hrunning' hm' hfile' (fun _ => ⟨pc', rfl⟩),
    .prints rfl hmove⟩

/-- A step of a callback that schedules itself again. -/
theorem Solo.print_again {pc : CallbackPc} (h : s.Solo c k stage) (hs : s.Running c k pc call)
    (hstep : s.printAgain k c pc env = some (t, e)) :
    Accounts s t (.callback k env) c k pc.stage := by
  unfold printAgain at hstep
  split at hstep
  case h_1 again =>
      cases hstep
      cases again with
      | true =>
          refine ⟨_, h.update (fun d _ call hcall => ⟨call, hcall, id⟩) (fun k' hk' => ?_)
            (fun k' hk' => ?_) (.queued hs.hcall hs.hkind hs.hended ?_ ?_ hs.hm), .again⟩
          · simp [finish, schedule, hk']
          · simp [finish, schedule, hk']
          · simp [finish, schedule, hs.hpending]
          · simp [finish]
      | false =>
          refine ⟨_, h.update (fun d _ call hcall => ⟨call, hcall, id⟩) (fun _ _ => rfl)
            (fun k' hk' => ?_) (.shows hs.hcall hs.hkind hs.hpending ?_ (fun _ _ => hs.hm) ?_), ?_⟩
          · simp [finish, hk']
          · simp [finish]
          · simp [file_of_ended hs.hended]
          · rw [hs.hended]
            exact .ends
  case h_2 => exact h.print_step hs hstep
  case h_3 => cases hstep
  case h_4 => cases hstep

/-- A step of `jiq_timedout`. -/
theorem Solo.timedout {pc : CallbackPc} (h : s.Solo c .timer stage)
    (hs : s.Running c .timer pc call) (hstep : s.jiqTimedout c pc env = some (t, e)) :
    Accounts s t (.callback .timer env) c .timer pc.stage := by
  unfold jiqTimedout at hstep
  split at hstep
  case h_1 =>
      cases hstep
      exact ⟨_, h.goes_on hs (.inl rfl) rfl rfl rfl nofun (fun hk => absurd rfl hk),
        .timed rfl (.inr ⟨_, rfl⟩) (.inr rfl)⟩
  case h_2 => exact h.print_step hs hstep
  case h_3 =>
      cases hstep
      refine ⟨_, h.goes_on (t := { s with data := { s.data with end_ := true } }) hs (.inl rfl) rfl
        rfl rfl nofun (fun hk => absurd rfl hk), ?_⟩
      exact .stays fun hk => absurd rfl hk
  case h_4 =>
      cases hstep
      have hcall : s.wakeUp.calls c = some call.wake := by simp [wakeUp, hs.hcall]
      have hended : call.wake.pc.stage = .ended := (stage_wake _).trans hs.hended
      refine ⟨_, h.update (wake_others (.inr rfl)) (fun _ _ => rfl) (fun k' hk' => ?_)
        (.shows hcall hs.hkind hs.hpending ?_ (fun _ _ => hs.hm) ?_), ?_⟩
      · simp [finish, wakeUp, hk']
      · simp [finish]
      · simp [file_of_ended hended]
      · rw [hended]
        exact .stays fun hk => absurd rfl hk

/-- A step of the callback. -/
theorem Solo.callback_step (h : s.Solo c k stage) {k' : Kind}
    (hstep : s.callbackStep k' env = some (t, e)) :
    k' = k ∧ Accounts s t (.callback k env) c k stage := by
  obtain ⟨⟨d, pc⟩, hrunning, hstep⟩ := Option.bind_eq_some_iff.mp hstep
  obtain ⟨rfl, rfl, rfl, call, hs⟩ := h.running hrunning
  refine ⟨rfl, ?_⟩
  cases k' with
  | wq | wqDelayed | tasklet => exact h.print_again hs hstep
  | timer => exact h.timedout hs hstep

/-- The kernel starts the callback. -/
theorem Solo.run_step (h : s.Solo c k stage) {k' : Kind} {d : Nat}
    (hpending : s.pending k' = some d) {a : Action} :
    Accounts s ({ s with pending := Function.update s.pending k' none }.proceed k' d
      (.print .readLen)) a c k stage := by
  obtain rfl : k' = k := by
    by_contra hk
    simp [(h.idle k' hk).1] at hpending
  cases h.place with
  | absent _ hnone | shows _ _ hnone | runs _ _ _ hnone => simp [hpending] at hnone
  | queued hcall hkind hended hpending' hrunning hm =>
      cases hpending.symm.trans hpending'
      have hself : ({ s with pending := Function.update s.pending k' none }.proceed k' c
          (.print .readLen)).running k' = some (c, .print .readLen) := by
        simp [proceed]
      refine ⟨_, h.update (fun d _ call hcall => ⟨call, hcall, id⟩) (fun k' hk' => ?_)
        (fun k' hk' => ?_) (.runs hcall hkind hended ?_ hself hm nofun (fun _ => ⟨_, rfl⟩)), .calls⟩
      · simp [proceed, hk']
      · simp [proceed, hk']
      · simp [proceed]

/-- A flag of a call does not matter to where it is. -/
theorem Place.signal {calls : Nat → Option ShowCall} (h : s.Place c k stage)
    (hnone : s.calls c = none → calls c = none)
    (hsome : ∀ call, s.calls c = some call →
      ∃ signal, calls c = some { call with signal := signal }) :
    Place { s with calls := calls } c k stage := by
  cases h with
  | absent hcall hpending hrunning => exact .absent (hnone hcall) hpending hrunning
  | shows hcall hkind hpending hrunning hm hfile =>
      obtain ⟨signal, hcall'⟩ := hsome _ hcall
      have hplace := Place.shows (s := { s with calls := calls }) hcall' hkind hpending hrunning hm
        hfile
      exact hplace
  | queued hcall hkind hended hpending hrunning hm =>
      obtain ⟨signal, hcall'⟩ := hsome _ hcall
      exact .queued hcall' hkind hended hpending hrunning hm
  | runs hcall hkind hended hpending hrunning hm hfile hprint =>
      obtain ⟨signal, hcall'⟩ := hsome _ hcall
      exact .runs hcall' hkind hended hpending hrunning hm hfile hprint

/-- A signal changes nothing but a flag. -/
theorem Solo.signal (h : s.Solo c k stage) {d : Nat} (hcall : s.calls d = some call) {a : Action}
    (hchain : a.chain = false) :
    Accounts s { s with
      calls := Function.update s.calls d (some { call with signal := true }) } a c k stage := by
  have hflag : ∀ d' call', s.calls d' = some call' → ∃ signal,
      Function.update s.calls d (some { call with signal := true }) d' =
        some { call' with signal := signal } := by
    intro d' call' hcall'
    by_cases heq : d' = d
    · subst heq
      cases hcall.symm.trans hcall'
      exact ⟨true, Function.update_self _ _ _⟩
    · exact ⟨call'.signal, (Function.update_of_ne heq _ _).trans hcall'⟩
  refine ⟨stage, h.update (fun d' _ call' hcall' => ?_) (fun _ _ => rfl) (fun _ _ => rfl)
    (h.place.signal (fun hnone => ?_) (hflag c)), .stays fun _ => hchain⟩
  · by_cases heq : d' = d
    · subst heq
      simp only [Function.update_self, Option.some.injEq] at hcall'
      refine ⟨call, hcall, fun hpc => ?_⟩
      rw [← hcall']
      exact hpc
    · simp only [Function.update_of_ne heq] at hcall'
      exact ⟨call', hcall', id⟩
  · have hne : c ≠ d := fun heq => by simp [heq, hcall] at hnone
    exact (Function.update_of_ne hne _ _).trans hnone

/-- Every step of the module does to the account of its only show call what is listed. -/
theorem solo_step {a : Action} (h : s.Solo c k stage) (ha : a.Sole c k)
    (hstep : s.step delay a = some (t, e)) : Accounts s t a c k stage := by
  cases a with
  | start d kind size =>
      obtain ⟨rfl, rfl⟩ := ha
      simp only [step] at hstep
      split at hstep
      case isFalse => cases hstep
      case isTrue hnew =>
          cases hstep
          cases h.place with
          | shows hcall | queued hcall | runs hcall => simp [hnew] at hcall
          | absent hcall hpending hrunning =>
              have hself : Function.update s.calls d (some ⟨kind, .setLen, false⟩) d =
                  some ⟨kind, .setLen, false⟩ := Function.update_self _ _ _
              refine ⟨_, h.update (fun d' hd' call' hcall' => ?_) (fun _ _ => rfl) (fun _ _ => rfl)
                (.shows hself rfl hpending hrunning (fun hne => absurd rfl hne) ?_), ?_⟩
              · simp only [Function.update_of_ne hd'] at hcall'
                exact ⟨call', hcall', id⟩
              · intro f hf
                cases hf
              · simpa [ShowPc.stage] using AccountStep.starts
  | call d env =>
      obtain ⟨call, hcall, hshow⟩ := Option.bind_eq_some_iff.mp hstep
      by_cases hd : d = c
      · subst hd
        by_cases hended : call.pc.stage = .ended
        · exact h.sleeps hcall hended rfl (show_step_sleeps hshow hended)
        · exact h.prepares hcall (show_step_prepares hshow hended) hended
      · rw [show_step_returned (h.others d hd call hcall)] at hshow
        cases hshow
  | run k' =>
      simp only [step] at hstep
      split at hstep
      case h_1 d hpending _ =>
          cases hstep
          exact h.run_step hpending
      case h_2 => cases hstep
  | callback k' env =>
      obtain ⟨rfl, haccounts⟩ := h.callback_step hstep
      exact haccounts
  | signal d =>
      obtain ⟨call, hcall, heq⟩ := Option.map_eq_some_iff.mp hstep
      cases heq
      exact h.signal hcall rfl

/-- The same, for the account as a function of the state. -/
theorem account_step {a : Action} (h : s.Solo c k (s.stage c k)) (ha : a.Sole c k)
    (hstep : s.step delay a = some (t, e)) :
    t.Solo c k (t.stage c k) ∧ AccountStep c k a (s.account c k) (t.account c k) := by
  obtain ⟨stage', hsolo, haccount⟩ := solo_step h ha hstep
  obtain rfl := hsolo.stage_eq
  exact ⟨hsolo, haccount⟩

/-- What the steps of an account keep holds in every state of a run with one show call, if the
transitions of the run meet the guard of the steps. -/
theorem account_of_visits {J : Account → Prop} {G : Action → Account → Prop} {actions : List Action}
    (hquiet : s.Quiet) (hnew : s.calls c = none) (hstart : ∀ len file, J ⟨.absent, len, file⟩)
    (hkeep : ∀ a acc acc', AccountStep c k a acc acc' → G a acc' → J acc → J acc')
    (hguard : ∀ t a e t', Machine.Takes (step delay) s actions t a e t' →
      a.Sole c k ∧ G a (t'.account c k))
    (ht : Machine.Visits (step delay) s actions t) :
    t.Solo c k (t.stage c k) ∧ J (t.account c k) := by
  have hsolo := hquiet.solo hnew k
  refine ht.invariant_of_guard (I := fun t => t.Solo c k (t.stage c k) ∧ J (t.account c k)) ?_ ?_
    hguard
  · rintro u a e u' ⟨hu, hJ⟩ ⟨ha, hG⟩ hstep
    obtain ⟨hu', haccount⟩ := account_step hu ha hstep
    exact ⟨hu', hkeep a _ _ haccount hG hJ⟩
  · rw [account, hsolo.stage_eq]
    exact ⟨hsolo, hstart _ _⟩

end JiqState

end Ldd3.Jiq
