import Ldd3.Jiq.Queue

/-!
# The steps of jiq

What matters for where the lines go is the `View` of a state: the fields `m` and `end` of the
`clientdata`, the calls, and what is queued and running. `ViewStep` lists what a step can do to it,
and `view_step` says that the list is complete.
-/

namespace Ldd3.Jiq

/-- The file a step of `jiq_print` has read, if it still needs it. -/
def PrintPc.file : PrintPc → Option (Option Nat)
  | test _ m _ | title m _ | line m _ _ => some m
  | _ => none

/-- `jiq_print` may still print, or ask to be called again. -/
def PrintPc.prints : PrintPc → Bool
  | setEnd | wake | ret false => false
  | _ => true

/-- The file a callback has read, if it still needs it. -/
def CallbackPc.file : CallbackPc → Option (Option Nat)
  | print pc => pc.file
  | setEnd | wake => none

/-- The callback may still print, in this run or after it has scheduled itself again. -/
def CallbackPc.prints : CallbackPc → Bool
  | print pc => pc.prints
  | setEnd | wake => false

/-- The call has set `m` and has still to schedule its callback. -/
def ShowPc.between : ShowPc → Bool
  | setRest | prepare | enqueue _ | print _ | schedule => true
  | setLen | setM | sleep _ | delTimer | leave | returned => false

/-- The file waits for a work. -/
def Kind.work : Kind → Bool
  | wq | wqDelayed => true
  | tasklet | timer => false

/-- The part of the state that decides where the lines go. -/
structure View where
  m : Option Nat
  end_ : Bool
  calls : Nat → Option ShowCall
  pending : Kind → Option Nat
  running : Kind → Option (Nat × CallbackPc)

/-- The view of a state. -/
def JiqState.view (s : JiqState) : View :=
  ⟨s.data.m, s.data.end_, s.calls, s.pending, s.running⟩

namespace View

/-- The view with call `c` at `pc`. -/
def go (v : View) (c : Nat) (call : ShowCall) (pc : ShowPc) : View :=
  { v with calls := Function.update v.calls c (some { call with pc := pc }) }

/-- The view after a wake-up of `jiq_wait`. -/
def wakeUp (v : View) : View := { v with calls := fun c => (v.calls c).map ShowCall.wake }

/-- The view with the callback of `k` at `pc`. -/
def proceed (v : View) (k : Kind) (c : Nat) (pc : CallbackPc) : View :=
  { v with running := Function.update v.running k (some (c, pc)) }

/-- The view after the callback of `k` has ended. -/
def finish (v : View) (k : Kind) : View := { v with running := Function.update v.running k none }

/-- The view after `k` has been scheduled on behalf of call `c`. -/
def schedule (v : View) (k : Kind) (c : Nat) : View :=
  { v with pending := Function.update v.pending k (some ((v.pending k).getD c)) }

end View

/-- A signal, and nothing else, ends the sleep of the call. -/
def EndsBySignal (v : View) (call : ShowCall) (phase : Wait) : Prop :=
  call.signal = true ∧
    if call.kind.work then phase = .sched false
    else Wait.waitEvent v.end_ call.signal phase = .interrupted

/-- A move of a call that concerns nobody else. -/
inductive Moves : Kind → ShowPc → ShowPc → Prop where
  | begins {k} : Moves k .setLen .setM
  | joins {k} : Moves k .prepare (.enqueue false)
  | prints {pc pc'} : Moves .timer (.print pc) (.print pc')
  | printed {pc} : Moves .timer (.print pc) .schedule
  | sleeps {k phase phase'} (hkind : k.work = false) : Moves k (.sleep phase) (.sleep phase')
  | returns {k} : Moves k .leave .returned

/-- How a call leaves its sleep, and where it goes on. -/
inductive Leaves (v : View) (call : ShowCall) : Wait → ShowPc → Prop where
  | woken (hkind : call.kind.work = true) : Leaves v call (.sched true) .leave
  | done {phase} (hkind : call.kind = .tasklet) (hend : v.end_ = true) : Leaves v call phase .leave
  | signalled {phase} (hkind : call.kind ≠ .timer) (hsignal : EndsBySignal v call phase) :
      Leaves v call phase .leave
  | timer {phase} (hkind : call.kind = .timer) : Leaves v call phase .delTimer

/-- What a step does to the view. -/
inductive ViewStep (v : View) : Action → Event → View → Prop where
  | starts {a c kind} (hnew : v.calls c = none) :
      ViewStep v a .quiet
        { v with calls := Function.update v.calls c (some ⟨kind, .setLen, false⟩) }
  | signals {a c call} (hcall : v.calls c = some call) :
      ViewStep v a .quiet
        { v with calls := Function.update v.calls c (some { call with signal := true }) }
  | moves {a e c call pc} (hcall : v.calls c = some call) (hmoves : Moves call.kind call.pc pc)
      (hevent : ∀ d m, e ≠ .callbackPrints d m) : ViewStep v a e (v.go c call pc)
  | setsM {env c call} (hcall : v.calls c = some call) (hpc : call.pc = .setM) :
      ViewStep v (.call c env) .quiet ({ v with m := some c }.go c call .setRest)
  | setsRest {a c call end' pc} (hcall : v.calls c = some call) (hpc : call.pc = .setRest)
      (hbetween : pc.between = true) (hjoined : ∀ woken, pc ≠ .enqueue woken)
      (hend : call.kind = .tasklet → end' = false) :
      ViewStep v a .quiet ({ v with end_ := end' }.go c call pc)
  | showEnds {a c call} (hcall : v.calls c = some call) (hkind : call.kind = .timer)
      (hpc : call.pc = .print .setEnd) :
      ViewStep v a .quiet ({ v with end_ := true }.go c call (.print .wake))
  | showWakes {a c call} (hcall : v.calls c = some call) (hkind : call.kind = .timer)
      (hpc : call.pc = .print .wake) :
      ViewStep v a .quiet (v.wakeUp.go c call (.print (.ret false)))
  | enqueues {a c call woken} (hcall : v.calls c = some call) (hkind : call.kind.work = true)
      (hpc : call.pc = .enqueue woken) :
      ViewStep v a .quiet ((v.schedule call.kind c).go c call (.sleep (.sched woken)))
  | schedules {a c call} (hcall : v.calls c = some call) (hkind : call.kind.work = false)
      (hpc : call.pc = .schedule) :
      ViewStep v a .quiet ((v.schedule call.kind c).go c call (.sleep .cond))
  | leaves {env c call phase pc} (hcall : v.calls c = some call) (hpc : call.pc = .sleep phase)
      (hleaves : Leaves v call phase pc) : ViewStep v (.call c env) .quiet (v.go c call pc)
  | synced {a c call} (hcall : v.calls c = some call) (hpc : call.pc = .delTimer)
      (hidle : v.running .timer = none) :
      ViewStep v a .quiet
        ({ v with pending := Function.update v.pending .timer none }.go c call .leave)
  | runs {a k c} (hpending : v.pending k = some c) (hidle : v.running k = none) :
      ViewStep v a .quiet
        ({ v with pending := Function.update v.pending k none }.proceed k c (.print .readLen))
  | proceeds {a k c pc pc'} (hrunning : v.running k = some (c, pc))
      (hfile : ∀ m, pc'.file = some m → pc.file = some m ∨ m = v.m)
      (hprints : pc'.prints = true → pc.prints = true) : ViewStep v a .quiet (v.proceed k c pc')
  | prints {a k c pc pc' m} (hrunning : v.running k = some (c, pc))
      (hfile : pc.file = some (some m)) (hfile' : ∀ f, pc'.file = some f → pc.file = some f)
      (hprints : pc.prints = true) :
      ViewStep v a (.callbackPrints c m) (v.proceed k c pc')
  | callbackEnds {a k c pc pc'} (hrunning : v.running k = some (c, pc)) (hfile : pc'.file = none)
      (hprints : pc'.prints = false) :
      ViewStep v a .quiet ({ v with end_ := true }.proceed k c pc')
  | callbackWakes {a k c} (hrunning : v.running k = some (c, .print .wake)) :
      ViewStep v a .quiet (v.wakeUp.proceed k c (.print (.ret false)))
  | timerWakes {a k c} (hrunning : v.running k = some (c, .wake)) :
      ViewStep v a .quiet (v.wakeUp.finish k)
  | finishes {a k c} (hrunning : v.running k = some (c, .print (.ret false))) :
      ViewStep v a .quiet (v.finish k)
  | again {a k c} (hrunning : v.running k = some (c, .print (.ret true))) :
      ViewStep v a .quiet ((v.schedule k c).finish k)

namespace JiqState

/-- What a step of `jiq_print` does to the view. -/
inductive PrintOutcome (s : JiqState) : PrintPc → JiqState → PrintPc → Option Nat → Prop where
  | reads {t pc pc'} (hview : t.view = s.view)
      (hfile : ∀ m, pc'.file = some m → pc.file = some m ∨ m = s.data.m)
      (hprints : pc.prints = true) : PrintOutcome s pc t pc' none
  | prints {t pc pc' m} (hview : t.view = s.view) (hfile : pc.file = some (some m))
      (hfile' : ∀ f, pc'.file = some f → pc.file = some f) (hprints : pc.prints = true) :
      PrintOutcome s pc t pc' (some m)
  | ends {t} (hview : t.view = { s.view with end_ := true }) : PrintOutcome s .setEnd t .wake none
  | wakes {t} (hview : t.view = s.view.wakeUp) : PrintOutcome s .wake t (.ret false) none

variable {s t : JiqState} {e : Event} {env : Env} {c : Nat} {call : ShowCall}

/-- Every step of `jiq_print` does one of these. -/
theorem jiq_print_outcome {pc pc' : PrintPc} {m : Option Nat}
    (h : s.jiqPrint env pc = some (t, pc', m)) : PrintOutcome s pc t pc' m := by
  cases pc with
  | readLen =>
      cases h
      exact .reads rfl nofun rfl
  | readM len =>
      cases h
      exact .reads rfl (fun m hm => .inr (Option.some.inj hm).symm) rfl
  | test len m j =>
      simp only [jiqPrint] at h
      split at h
      · cases h
        exact .reads rfl nofun rfl
      · split at h <;> cases h <;> exact .reads rfl (fun _ hm => .inl hm) rfl
  | title file j =>
      obtain ⟨⟨t', d, count⟩, hprint, heq⟩ := Option.map_eq_some_iff.mp h
      obtain ⟨_, rfl, hfile⟩ := Option.map_eq_some_iff.mp hprint
      cases hfile
      cases heq
      exact .prints rfl rfl (fun _ hm => hm) rfl
  | line file j len =>
      obtain ⟨⟨t', d, count⟩, hprint, heq⟩ := Option.map_eq_some_iff.mp h
      obtain ⟨_, rfl, hfile⟩ := Option.map_eq_some_iff.mp hprint
      cases hfile
      cases heq
      exact .prints rfl rfl nofun rfl
  | store j len =>
      cases h
      exact .reads rfl nofun rfl
  | setEnd =>
      cases h
      exact .ends rfl
  | wake =>
      cases h
      exact .wakes rfl
  | ret _ => cases h

/-- A call goes on in the view as in the state. -/
theorem view_go (pc : ShowPc) : (s.go c call pc).view = s.view.go c call pc := rfl

/-- A callback goes on in the view as in the state. -/
theorem view_proceed (k : Kind) (pc : CallbackPc) :
    (s.proceed k c pc).view = s.view.proceed k c pc := rfl

/-- What a step of `wait_event_interruptible` on `end` does. -/
theorem wait_end_view {after : ShowPc} {phase : Wait} (h : s.waitEnd c call after phase = some t)
    (hcall : s.calls c = some call) (hpc : call.pc = .sleep phase)
    (hkind : call.kind.work = false)
    (hdone : s.data.end_ = true → Leaves s.view call phase after)
    (hsignal : EndsBySignal s.view call phase → Leaves s.view call phase after) :
    ViewStep s.view (.call c env) .quiet t.view := by
  unfold waitEnd at h
  split at h
  case h_1 => cases h
  case h_2 hwait =>
      cases h
      refine .leaves hcall hpc (hsignal ⟨?_, ?_⟩)
      · exact Wait.signal_of_wait_event hwait
      · rw [hkind]
        exact hwait
  case h_3 hwait =>
      cases h
      exact .leaves hcall hpc (hdone (Wait.cond_of_wait_event hwait))
  case h_4 =>
      cases h
      exact .moves hcall (hpc ▸ .sleeps hkind) nofun

/-- What a step of a show function that waits for a work does. -/
theorem work_show_view {delay : BitVec 64} (h : s.workShow c call delay env = some t)
    (hcall : s.calls c = some call) (hkind : call.kind.work = true) :
    ViewStep s.view (.call c env) .quiet t.view := by
  unfold workShow at h
  split at h
  case h_1 hpc =>
      cases h
      refine .setsRest hcall hpc rfl nofun fun htasklet => ?_
      rw [htasklet] at hkind
      cases hkind
  case h_2 hpc =>
      cases h
      exact .moves hcall (hpc ▸ .joins) nofun
  case h_3 woken hpc =>
      cases h
      exact .enqueues hcall hkind hpc
  case h_4 woken hpc =>
      split at h
      case isTrue hrun =>
          cases h
          refine .leaves hcall hpc ?_
          cases woken with
          | true => exact .woken hkind
          | false =>
              refine .signalled ?_ ⟨hrun, by rw [hkind]; rfl⟩
              intro htimer
              rw [htimer] at hkind
              cases hkind
      case isFalse => cases h
  case h_5 => cases h

/-- What a step of `jiq_read_tasklet_show` does. -/
theorem jiq_read_tasklet_show_view (h : s.jiqReadTaskletShow c call env = some t)
    (hcall : s.calls c = some call) (hkind : call.kind = .tasklet) :
    ViewStep s.view (.call c env) .quiet t.view := by
  have hwork : call.kind.work = false := by rw [hkind]; rfl
  unfold jiqReadTaskletShow at h
  split at h
  case h_1 hpc =>
      cases h
      exact .setsRest hcall hpc rfl nofun fun _ => rfl
  case h_2 hpc =>
      cases h
      exact hkind ▸ .schedules hcall hwork hpc
  case h_3 phase hpc =>
      exact wait_end_view h hcall hpc hwork (fun hend => .done hkind hend)
        (.signalled (by rw [hkind]; nofun))
  case h_4 => cases h

/-- What a step of `jiq_read_run_timer_show` does. -/
theorem jiq_read_run_timer_show_view (h : s.jiqReadRunTimerShow c call env = some (t, e))
    (hcall : s.calls c = some call) (hkind : call.kind = .timer) :
    ViewStep s.view (.call c env) e t.view := by
  have hwork : call.kind.work = false := by rw [hkind]; rfl
  unfold jiqReadRunTimerShow at h
  split at h
  case h_1 hpc =>
      split at h <;> cases h
      exact .setsRest hcall hpc rfl nofun fun _ => rfl
  case h_2 hpc =>
      cases h
      exact .moves hcall (hpc ▸ hkind ▸ .printed) nofun
  case h_3 pc _ hpc =>
      obtain ⟨⟨t', pc', m⟩, hprint, heq⟩ := Option.map_eq_some_iff.mp h
      cases heq
      rw [view_go]
      cases jiq_print_outcome hprint with
      | reads hview | prints hview =>
          rw [hview]
          exact .moves hcall (hpc ▸ hkind ▸ .prints) nofun
      | ends hview =>
          rw [hview]
          exact .showEnds hcall hkind hpc
      | wakes hview =>
          rw [hview]
          exact .showWakes hcall hkind hpc
  case h_4 hpc =>
      split at h <;> cases h
      exact hkind ▸ .schedules hcall hwork hpc
  case h_5 phase hpc =>
      obtain ⟨t', hwait, heq⟩ := Option.map_eq_some_iff.mp h
      cases heq
      exact wait_end_view hwait hcall hpc hwork (fun _ => .timer hkind) fun _ => .timer hkind
  case h_6 hpc =>
      split at h <;> cases h
      exact .synced hcall hpc ‹_›
  case h_7 => cases h

/-- What a step of a show function does. -/
theorem show_step_view {delay : BitVec 64} (h : s.showStep delay c call env = some (t, e))
    (hcall : s.calls c = some call) : ViewStep s.view (.call c env) e t.view := by
  unfold showStep at h
  split at h
  case h_1 hpc =>
      cases h
      exact .moves hcall (hpc ▸ .begins) nofun
  case h_2 hpc =>
      cases h
      exact .setsM hcall hpc
  case h_3 hpc =>
      cases h
      exact .moves hcall (hpc ▸ .returns) nofun
  case h_4 =>
      cases hkind : call.kind <;> rw [hkind] at h
      case wq =>
          obtain ⟨t', hshow, heq⟩ := Option.map_eq_some_iff.mp h
          cases heq
          exact work_show_view hshow hcall (by rw [hkind]; rfl)
      case wqDelayed =>
          obtain ⟨t', hshow, heq⟩ := Option.map_eq_some_iff.mp h
          cases heq
          exact work_show_view hshow hcall (by rw [hkind]; rfl)
      case tasklet =>
          obtain ⟨t', hshow, heq⟩ := Option.map_eq_some_iff.mp h
          cases heq
          exact jiq_read_tasklet_show_view hshow hcall hkind
      case timer => exact jiq_read_run_timer_show_view h hcall hkind

/-- What a step of `jiq_print` in a callback does. -/
theorem print_step_view {a : Action} {k : Kind} {pc : PrintPc}
    (h : s.printStep k c pc env = some (t, e)) (hrunning : s.running k = some (c, .print pc)) :
    ViewStep s.view a e t.view := by
  obtain ⟨⟨t', pc', m⟩, hprint, heq⟩ := Option.map_eq_some_iff.mp h
  cases heq
  rw [view_proceed]
  cases jiq_print_outcome hprint with
  | reads hview hfile hprints =>
      rw [hview]
      exact .proceeds hrunning hfile fun _ => hprints
  | prints hview hfile hfile' hprints =>
      rw [hview]
      exact .prints hrunning hfile hfile' hprints
  | ends hview =>
      rw [hview]
      exact .callbackEnds hrunning rfl rfl
  | wakes hview =>
      rw [hview]
      exact .callbackWakes hrunning

/-- What a step of a callback that schedules itself again does. -/
theorem print_again_view {a : Action} {k : Kind} {pc : CallbackPc}
    (h : s.printAgain k c pc env = some (t, e)) (hrunning : s.running k = some (c, pc)) :
    ViewStep s.view a e t.view := by
  unfold printAgain at h
  split at h
  case h_1 again =>
      cases h
      cases again with
      | true => exact .again hrunning
      | false => exact .finishes hrunning
  case h_2 => exact print_step_view h hrunning
  case h_3 => cases h
  case h_4 => cases h

/-- What a step of `jiq_timedout` does. -/
theorem jiq_timedout_view {a : Action} {pc : CallbackPc}
    (h : s.jiqTimedout c pc env = some (t, e)) (hrunning : s.running .timer = some (c, pc)) :
    ViewStep s.view a e t.view := by
  unfold jiqTimedout at h
  split at h
  case h_1 =>
      cases h
      exact .proceeds hrunning nofun nofun
  case h_2 => exact print_step_view h hrunning
  case h_3 =>
      cases h
      exact .callbackEnds hrunning rfl rfl
  case h_4 =>
      cases h
      exact .timerWakes hrunning

/-- What a step of a callback does. -/
theorem callback_step_view {a : Action} {k : Kind} (h : s.callbackStep k env = some (t, e)) :
    ViewStep s.view a e t.view := by
  obtain ⟨⟨c, pc⟩, hrunning, hstep⟩ := Option.bind_eq_some_iff.mp h
  cases k with
  | wq | wqDelayed | tasklet => exact print_again_view hstep hrunning
  | timer => exact jiq_timedout_view hstep hrunning

/-- Every step of the module is one of the listed ones. -/
theorem view_step {delay : BitVec 64} {a : Action} (h : s.step delay a = some (t, e)) :
    ViewStep s.view a e t.view := by
  cases a with
  | start c kind size =>
      simp only [step] at h
      split at h
      case isTrue hnew =>
          cases h
          exact .starts hnew
      case isFalse => cases h
  | call c env =>
      obtain ⟨call, hcall, hshow⟩ := Option.bind_eq_some_iff.mp h
      exact show_step_view hshow hcall
  | run k =>
      simp only [step] at h
      split at h
      case h_1 hpending hidle =>
          cases h
          exact .runs hpending hidle
      case h_2 => cases h
  | callback k env => exact callback_step_view h
  | signal c =>
      obtain ⟨call, hcall, heq⟩ := Option.map_eq_some_iff.mp h
      cases heq
      exact .signals hcall

end JiqState

end Ldd3.Jiq
