import Ldd3.LockProgram

/-!
# Concurrent calls under one lock

Any number of calls of programs with a lock that work on the same data, and steps from outside that
change these data without the lock. A step of a call is one statement.

`Prog.wp` is the weakest precondition of a program against an abstract machine. The abstract state
and the shared data are related by `inv` whenever nobody holds the lock, and only the call that
holds it may change either; a statement may execute actions of the abstract machine, which become
the `trace` of the call. `Pool.ordered_run` is what the precondition is for: a system all of whose
programs have it follows the abstract machine, in one order for the whole run, in which a call
executes its actions in its own steps.
-/

namespace Ldd3

variable {ι σ χ τ γ κ ο α δ ε : Type*}

/-- How the data of a call contain the shared data, and what a step finds, given the shared data and
the choices of the kernel. -/
structure Sharing (σ χ γ κ : Type*) where
  world : World σ χ
  get : σ → γ
  put : γ → σ → σ
  env : γ → κ → χ
  get_put (g : γ) (d : σ) : get (put g d) = g
  put_get (d : σ) : put (get d) d = d
  put_put (g g' : γ) (d : σ) : put g (put g' d) = put g d
  others_env (g : γ) (k : κ) (d : σ) : world.others (env g k) d = put g d

/-- The calls that can be made, with their programs and their data at the start, and the steps from
outside. -/
structure LockSystem (ι σ χ τ γ κ ο : Type*) extends Sharing σ χ γ κ where
  prog : ι → Prog σ χ τ
  data : ι → σ
  outside : ο → γ → γ

/-- The shared data and the calls, each with what was asked of it. -/
structure Pool (ι σ χ τ γ : Type*) where
  shared : γ
  calls : List (ι × Config σ χ τ)

/-- A call starts, a call makes a step, or something happens from outside. -/
inductive PoolAction (ι κ ο : Type*) where
  | start (x : ι)
  | act (i : Nat) (k : κ)
  | outside (o : ο)

namespace Pool

/-- Nobody holds the lock. -/
def Free (s : Pool ι σ χ τ γ) : Prop := ∀ c ∈ s.calls, c.2.held = false

instance (s : Pool ι σ χ τ γ) : Decidable s.Free := inferInstanceAs (Decidable (∀ c ∈ _, _))

/-- One step of call `i`, which waits if it takes the lock and somebody holds it. -/
def act (S : LockSystem ι σ χ τ γ κ ο) (s : Pool ι σ χ τ γ) (i : Nat) (k : κ) :
    Option (Pool ι σ χ τ γ) :=
  s.calls[i]?.bind fun c =>
    (Config.step S.world { c.2 with data := S.put s.shared c.2.data } (S.env s.shared k)).bind
      fun r =>
        if r.2 = .takes ∧ r.1.held = true ∧ ¬ s.Free then none
        else some ⟨S.get r.1.data, s.calls.set i (c.1, r.1)⟩

/-- One step of the system. -/
def step (S : LockSystem ι σ χ τ γ κ ο) (s : Pool ι σ χ τ γ) :
    PoolAction ι κ ο → Option (Pool ι σ χ τ γ × Unit)
  | .start x => some ({ s with calls := s.calls ++ [(x, .start (S.prog x) (S.data x))] }, ())
  | .act i k => (s.act S i k).map fun t => (t, ())
  | .outside o => some ({ s with shared := S.outside o s.shared }, ())

/-- A step of a call. -/
theorem act_eq_some {S : LockSystem ι σ χ τ γ κ ο} {s t : Pool ι σ χ τ γ} {i : Nat} {k : κ}
    (h : s.act S i k = some t) :
    ∃ x c c' e, s.calls[i]? = some (x, c) ∧
      Config.step S.world { c with data := S.put s.shared c.data } (S.env s.shared k) =
        some (c', e) ∧
      (e = .takes → c'.held = true → s.Free) ∧
      t = ⟨S.get c'.data, s.calls.set i (x, c')⟩ := by
  obtain ⟨⟨x, c⟩, hc, hbind⟩ := Option.bind_eq_some_iff.mp h
  obtain ⟨⟨c', e⟩, hstep, hrest⟩ := Option.bind_eq_some_iff.mp hbind
  dsimp only at hrest
  split at hrest
  · cases hrest
  · rename_i hfree
    cases hrest
    refine ⟨x, c, c', e, hc, hstep, fun htakes hheld => ?_, rfl⟩
    exact Classical.not_not.mp fun hnot => hfree ⟨htakes, hheld, hnot⟩

end Pool

/-- The abstract machine. `base` relates the abstract state and the shared data at all times and
`inv` when nobody holds the lock; `rely` says what the steps from outside may do to both. -/
structure Abstraction (γ α δ ε : Type*) where
  step : α → δ → Option (α × ε)
  base : α → γ → Prop
  inv : α → γ → Prop
  rely : α × γ → α × γ → Prop
  rely_refl (x : α × γ) : rely x x
  rely_trans {x y z : α × γ} : rely x y → rely y z → rely x z

/-- The abstract machine goes from `a` to `a'` with these actions and effects. -/
def Abstraction.Commits (A : Abstraction γ α δ ε) (a : α) (ws : List (δ × ε)) (a' : α) : Prop :=
  Machine.run A.step a (ws.map Prod.fst) = some (a', ws.map Prod.snd)

/-- Nothing is executed. -/
theorem Abstraction.Commits.nil {A : Abstraction γ α δ ε} (a : α) : A.Commits a [] a := rfl

/-- One action is executed. -/
theorem Abstraction.Commits.one {A : Abstraction γ α δ ε} {a a' : α} {b : δ} {e : ε}
    (h : A.step a b = some (a', e)) : A.Commits a [(b, e)] a' := by
  simp [Commits, Machine.run, h]

/-- One execution after the other. -/
theorem Abstraction.Commits.append {A : Abstraction γ α δ ε} {a b c : α} {ws vs : List (δ × ε)}
    (h : A.Commits a ws b) (h' : A.Commits b vs c) : A.Commits a (ws ++ vs) c := by
  unfold Commits at h h' ⊢
  rw [List.map_append, List.map_append, Machine.run_append h, h']
  rfl

/-- What is known of a call: whether it holds the lock, the abstract state, the actions it has
executed and its data. -/
abbrev Assertion (α δ ε σ : Type*) := Bool → α → List (δ × ε) → σ → Prop

/-- What has to hold where a program can go: behind it, at the end of the innermost scope and at a
return with either kind of result. -/
structure Goals (α δ ε σ : Type*) where
  next : Assertion α δ ε σ
  exit : Assertion α δ ε σ
  ret : Bool → Assertion α δ ε σ

section Precondition

variable (S : Sharing σ χ γ κ) (A : Abstraction γ α δ ε)

/-- Whatever the others do meanwhile. Without the lock that is anything, and with it what may happen
from outside. -/
def Always (P : Assertion α δ ε σ) : Assertion α δ ε σ := fun held a trace d =>
  ∀ a' g, A.base a' g → (held = true → A.rely (a, S.get d) (a', g)) → P held a' trace (S.put g d)

/-- After a statement. It may execute actions of the abstract machine, but without the lock it
changes neither the abstract state nor the shared data. -/
def After (f : σ → χ → Option σ) (P : Assertion α δ ε σ) : Assertion α δ ε σ :=
  Always S A fun held a trace d => ∀ k d', f d (S.env (S.get d) k) = some d' →
    ∃ ws a', A.Commits a ws a' ∧ A.base a' (S.get d') ∧
      (held = false → a' = a ∧ S.get d' = S.get d) ∧ P held a' (trace ++ ws) d'

/-- After a test. -/
def Tested (c : σ → χ → Bool) (P Q : Assertion α δ ε σ) : Assertion α δ ε σ :=
  Always S A fun held a trace d => ∀ k,
    if c d (S.env (S.get d) k) then P held a trace d else Q held a trace d

/-- After the lock has been taken. -/
def Locked (P : Assertion α δ ε σ) : Assertion α δ ε σ := fun _ _ trace d =>
  ∀ a g, A.base a g → A.inv a g → P true a trace (S.put g d)

/-- After the lock has been dropped, possibly with actions of the abstract machine. -/
def Unlocked (P : Assertion α δ ε σ) : Assertion α δ ε σ :=
  Always S A fun held a trace d => held = true ∧
    ∃ ws a', A.Commits a ws a' ∧ A.base a' (S.get d) ∧ A.inv a' (S.get d) ∧
      P false a' (trace ++ ws) d

/-- The weakest precondition of a program. -/
def Prog.wp : Prog σ χ τ → Goals α δ ε σ → Assertion α δ ε σ
  | .skip, Q | .assertHeld, Q => Always S A Q.next
  | .exec f, Q => After S A f Q.next
  | .lock, Q => Locked S A Q.next
  | .tryLock interrupted, Q => fun held a trace d =>
      Locked S A Q.next held a trace d ∧ interrupted.wp Q held a trace d
  | .unlock, Q => Unlocked S A Q.next
  | .ret ok f, Q => After S A (fun d x => some (f d x)) (Q.ret ok)
  | .goto, Q => Always S A Q.exit
  | .seq p q, Q => p.wp { Q with next := q.wp Q }
  | .ite _ c p q, Q => Tested S A c (p.wp Q) (q.wp Q)
  | .loop _ pre c body, Q => fun held a trace d =>
      -- the invariant of the loop
      ∃ J, Always S A J held a trace d ∧ ∀ held a trace d, Always S A J held a trace d →
        pre.wp { Q with
          next := Tested S A c (body.wp { Q with next := Always S A J }) (Always S A Q.next) }
          held a trace d
  | .scope _ body, Q => body.wp ⟨Always S A Q.next, Q.next, Q.ret⟩
  | .call _ body failed, Q =>
      body.wp ⟨fun _ _ _ _ => False, fun _ _ _ _ => False,
        fun ok => if ok then Q.next else failed.wp Q⟩

/-- What has to hold where a call can go that has this left to do, if it is to return with
`post`. -/
def goals (post : List (δ × ε) → σ → Prop) : List (Item σ χ τ) → Goals α δ ε σ
  | [] =>
      let final := fun held _ trace d => held = false ∧ ∀ g, post trace (S.put g d)
      ⟨final, fun _ _ _ _ => False, fun _ => final⟩
  | .run p :: k => { goals post k with next := p.wp S A (goals post k) }
  | .endScope _ :: k =>
      { goals post k with next := Always S A (goals post k).next, exit := (goals post k).next }
  | .endCall _ failed :: k =>
      ⟨fun _ _ _ _ => False, fun _ _ _ _ => False,
        fun ok => if ok then (goals post k).next else failed.wp S A (goals post k)⟩

/-- What the others do meanwhile leaves the assertion true. -/
def Stable (P : Assertion α δ ε σ) : Prop :=
  ∀ held a trace d, P held a trace d → Always S A P held a trace d

variable {S A} {P Q : Assertion α δ ε σ} {held : Bool} {a : α} {trace : List (δ × ε)} {d : σ}

/-- If nothing happens meanwhile. -/
theorem Always.here {g : γ} (h : Always S A P held a trace (S.put g d)) (hbase : A.base a g) :
    P held a trace (S.put g d) := by
  have hnow := h a g hbase fun _ => by
    rw [S.get_put]
    exact A.rely_refl _
  rwa [S.put_put] at hnow

/-- The weaker of two assertions. -/
theorem Always.mono (h : Always S A P held a trace d)
    (hPQ : ∀ a g, P held a trace (S.put g d) → Q held a trace (S.put g d)) :
    Always S A Q held a trace d :=
  fun a' g hbase hrely => hPQ a' g (h a' g hbase hrely)

theorem stable_always (P : Assertion α δ ε σ) : Stable S A (Always S A P) := by
  intro held a trace d h a' g hbase hrely a'' g' hbase' hrely'
  rw [S.put_put]
  refine h a'' g' hbase' fun hheld => ?_
  have hlater := hrely' hheld
  rw [S.get_put] at hlater
  exact A.rely_trans (hrely hheld) hlater

theorem stable_after (f : σ → χ → Option σ) (P : Assertion α δ ε σ) : Stable S A (After S A f P) :=
  stable_always _

theorem stable_tested (c : σ → χ → Bool) (P Q : Assertion α δ ε σ) :
    Stable S A (Tested S A c P Q) :=
  stable_always _

theorem stable_unlocked (P : Assertion α δ ε σ) : Stable S A (Unlocked S A P) := stable_always _

theorem stable_locked (P : Assertion α δ ε σ) : Stable S A (Locked S A P) := by
  intro held a trace d h a' g _ _ a'' g' hbase hinv
  rw [S.put_put]
  exact h a'' g' hbase hinv

/-- A precondition stays true. -/
theorem stable_wp (p : Prog σ χ τ) (Q : Goals α δ ε σ) : Stable S A (p.wp S A Q) := by
  induction p generalizing Q with
  | skip | assertHeld | goto => exact stable_always _
  | exec f => exact stable_after f _
  | ret ok f => exact stable_after _ _
  | ite site c p q => exact stable_tested c _ _
  | unlock => exact stable_unlocked _
  | lock => exact stable_locked _
  | tryLock interrupted ih =>
      intro held a trace d h a' g hbase hrely
      exact ⟨stable_locked _ held a trace d h.1 a' g hbase hrely,
        ih Q held a trace d h.2 a' g hbase hrely⟩
  | seq p q ihp => exact ihp _
  | loop site pre c body =>
      rintro held a trace d ⟨J, hJ, hround⟩ a' g hbase hrely
      exact ⟨J, stable_always J held a trace d hJ a' g hbase hrely, hround⟩
  | scope after body ih => exact ih _
  | call spec body failed ih => exact ih _

variable {post : List (δ × ε) → σ → Prop}

/-- What is known of a call stays true. -/
theorem stable_goals (k : List (Item σ χ τ)) : Stable S A (goals S A post k).next := by
  cases k with
  | nil =>
      rintro held a trace d ⟨hheld, hpost⟩ a' g _ _
      refine ⟨hheld, fun g' => ?_⟩
      rw [S.put_put]
      exact hpost g'
  | cons item k =>
      cases item with
      | run p => exact stable_wp p _
      | endScope after => exact stable_always _
      | endCall spec failed => exact fun _ _ _ _ h => h.elim

/-- A jump arrives at the end of a scope. -/
theorem goals_unwind_scope {k k' : List (Item σ χ τ)} (h : unwindScope k = some k') :
    (goals S A post k).exit = (goals S A post k').next := by
  induction k with
  | nil => cases h
  | cons item k ih =>
      cases item with
      | run p => exact ih h
      | endScope after =>
          cases h
          rfl
      | endCall spec failed => cases h

/-- A return arrives at the end of a function. -/
theorem goals_unwind_call {k k' : List (Item σ χ τ)} {spec : Bool → Bool} {failed : Prog σ χ τ}
    (h : unwindCall k = some (spec, failed, k')) (ok : Bool) :
    (goals S A post k).ret ok =
      (goals S A post (if ok then k' else .run failed :: k')).next := by
  induction k with
  | nil => cases h
  | cons item k ih =>
      cases item with
      | run p => exact ih h
      | endScope after => exact ih h
      | endCall spec' failed' =>
          cases h
          cases ok <;> rfl

/-- A return that leaves no function is one of the call. -/
theorem goals_of_unwind_call {k : List (Item σ χ τ)} (h : unwindCall k = none) (ok : Bool) :
    (goals S A post k).ret ok = (goals S A post ([] : List (Item σ χ τ))).next := by
  induction k with
  | nil => rfl
  | cons item k ih =>
      cases item with
      | run p => exact ih h
      | endScope after => exact ih h
      | endCall spec failed => cases h

/-- One assertion implies the other. -/
def Entails (P Q : Assertion α δ ε σ) : Prop :=
  ∀ held a trace d, P held a trace d → Q held a trace d

/-- Every goal implies the other one of its kind. -/
structure Goals.Le (Q R : Goals α δ ε σ) : Prop where
  next : Entails Q.next R.next
  exit : Entails Q.exit R.exit
  ret (ok : Bool) : Entails (Q.ret ok) (R.ret ok)

theorem Entails.refl (P : Assertion α δ ε σ) : Entails P P := fun _ _ _ _ h => h

theorem Entails.always (h : Entails P Q) : Entails (Always S A P) (Always S A Q) :=
  fun _ _ _ _ hP a' g hbase hrely => h _ _ _ _ (hP a' g hbase hrely)

theorem Entails.after (h : Entails P Q) (f : σ → χ → Option σ) :
    Entails (After S A f P) (After S A f Q) := by
  intro held a trace d hP a' g hbase hrely k d' hf
  obtain ⟨ws, b, hrun, hbase', hquiet, hnext⟩ := hP a' g hbase hrely k d' hf
  exact ⟨ws, b, hrun, hbase', hquiet, h _ _ _ _ hnext⟩

theorem Entails.tested {P' Q' : Assertion α δ ε σ} (hP : Entails P P') (hQ : Entails Q Q')
    (c : σ → χ → Bool) : Entails (Tested S A c P Q) (Tested S A c P' Q') := by
  intro held a trace d h a' g hbase hrely k
  have htest := h a' g hbase hrely k
  cases hc : c (S.put g d) (S.env (S.get (S.put g d)) k) with
  | true =>
      rw [hc] at htest
      exact hP _ _ _ _ htest
  | false =>
      rw [hc] at htest
      exact hQ _ _ _ _ htest

theorem Entails.locked (h : Entails P Q) : Entails (Locked S A P) (Locked S A Q) :=
  fun _ _ _ _ hP a g hbase hinv => h _ _ _ _ (hP a g hbase hinv)

theorem Entails.unlocked (h : Entails P Q) : Entails (Unlocked S A P) (Unlocked S A Q) := by
  intro held a trace d hP a' g hbase hrely
  obtain ⟨hheld, ws, b, hrun, hbase', hinv, hnext⟩ := hP a' g hbase hrely
  exact ⟨hheld, ws, b, hrun, hbase', hinv, h _ _ _ _ hnext⟩

/-- Weaker goals have a weaker precondition. -/
theorem wp_mono (p : Prog σ χ τ) {Q R : Goals α δ ε σ} (h : Q.Le R) :
    Entails (p.wp S A Q) (p.wp S A R) := by
  induction p generalizing Q R with
  | skip | assertHeld => exact h.next.always
  | exec f => exact h.next.after f
  | lock => exact h.next.locked
  | tryLock interrupted ih =>
      exact fun held a trace d hwp => ⟨h.next.locked _ _ _ _ hwp.1, ih h _ _ _ _ hwp.2⟩
  | unlock => exact h.next.unlocked
  | ret ok f => exact (h.ret ok).after _
  | goto => exact h.exit.always
  | seq p q ihp ihq => exact ihp ⟨ihq h, h.exit, h.ret⟩
  | ite site c p q ihp ihq => exact (ihp h).tested (ihq h) c
  | loop site pre c body ihpre ihbody =>
      rintro held a trace d ⟨J, hJ, hround⟩
      have hbody : Entails (body.wp S A { Q with next := Always S A J })
          (body.wp S A { R with next := Always S A J }) :=
        ihbody ⟨.refl _, h.exit, h.ret⟩
      have hgoals : Goals.Le
          { Q with
            next := Tested S A c (body.wp S A { Q with next := Always S A J }) (Always S A Q.next) }
          { R with
            next := Tested S A c (body.wp S A { R with next := Always S A J })
              (Always S A R.next) } :=
        ⟨hbody.tested h.next.always c, h.exit, h.ret⟩
      exact ⟨J, hJ, fun held a trace d hJ => ihpre hgoals _ _ _ _ (hround held a trace d hJ)⟩
  | scope after body ih => exact ih ⟨h.next.always, h.next, h.ret⟩
  | call spec body failed ihbody ihfailed =>
      refine ihbody ⟨.refl _, .refl _, fun ok => ?_⟩
      cases ok with
      | true => exact h.next
      | false => exact ihfailed h

/-- A loop whose precondition holds can be unfolded. -/
theorem wp_unfold_loop {site : τ} {pre body : Prog σ χ τ} {c : σ → χ → Bool} {Q : Goals α δ ε σ}
    (h : (Prog.loop site pre c body).wp S A Q held a trace d) :
    (Prog.unfoldLoop site pre c body).wp S A Q held a trace d := by
  obtain ⟨J, hJ, hround⟩ := h
  -- the next round starts with the same invariant
  have hbody : Entails (body.wp S A { Q with next := Always S A J })
      (body.wp S A { Q with next := (Prog.loop site pre c body).wp S A Q }) :=
    wp_mono body ⟨fun _ _ _ _ hnext => ⟨J, hnext, hround⟩, .refl _, fun _ => .refl _⟩
  have hgoals : Goals.Le
      { Q with
        next := Tested S A c (body.wp S A { Q with next := Always S A J }) (Always S A Q.next) }
      { Q with
        next := (Prog.ite site c (.seq body (.loop site pre c body)) .skip).wp S A Q } :=
    ⟨hbody.tested (.refl _) c, .refl _, fun _ => .refl _⟩
  exact wp_mono pre hgoals _ _ _ _ (hround held a trace d hJ)

end Precondition

section Step

variable {S : Sharing σ χ γ κ} {A : Abstraction γ α δ ε} {post : List (δ × ε) → σ → Prop}
  {c c' : Config σ χ τ} {e : LockEvent} {a : α} {g : γ} {trace : List (δ × ε)} {k : κ}

/-- The data as a step of a call finds them. -/
theorem seen_load (c : Config σ χ τ) (g : γ) (k : κ) :
    Config.seen S.world { c with data := S.put g c.data } (S.env g k) = S.put g c.data := by
  unfold Config.seen
  split
  · rfl
  · rw [S.others_env, S.put_put]

/-- What a step of a call from abstract state `a` and shared data `g` may do: it executes actions of
the abstract machine, changes the abstract state and the shared data only if it holds the lock, and
drops the lock only where they are related. -/
structure StepGoal (S : Sharing σ χ γ κ) (A : Abstraction γ α δ ε) (post : List (δ × ε) → σ → Prop)
    (held : Bool) (a : α) (g : γ) (trace ws : List (δ × ε)) (a' : α) (c' : Config σ χ τ) :
    Prop where
  commits : A.Commits a ws a'
  base : A.base a' (S.get c'.data)
  quiet : held = false → a' = a ∧ S.get c'.data = g
  inv : held = true → c'.held = false → A.inv a' (S.get c'.data)
  next : (goals S A post c'.todo).next c'.held a' (trace ++ ws) c'.data

/-- A step that executes no action of the abstract machine. -/
theorem StepGoal.silent {held held' : Bool} {todo : List (Item σ χ τ)} {d : σ} (hbase : A.base a g)
    (hheld : held = true → held' = true)
    (hnext : (goals S A post todo).next held' a trace (S.put g d)) :
    StepGoal S A post held a g trace [] a ⟨todo, S.put g d, held'⟩ where
  commits := .nil a
  base := by rwa [S.get_put]
  quiet _ := ⟨rfl, S.get_put g d⟩
  inv h h' := absurd ((hheld h).symm.trans h') (by decide)
  next := by rwa [List.append_nil]

/-- A step after which the call goes on at `todo` with what a statement leaves. -/
theorem StepGoal.after {held : Bool} {f : σ → χ → Option σ} {todo : List (Item σ χ τ)} {d d' : σ}
    (hbase : A.base a g)
    (hnext : After S A f (goals S A post todo).next held a trace (S.put g d))
    (hf : f (S.put g d) (S.env g k) = some d') :
    ∃ ws a', StepGoal S A post held a g trace ws a' ⟨todo, d', held⟩ := by
  have hnow := Always.here hnext hbase k d'
  rw [S.get_put] at hnow
  obtain ⟨ws, a', hrun, hbase', hquiet, hgoal⟩ := hnow hf
  exact ⟨ws, a', hrun, hbase', by simpa only [S.get_put] using hquiet,
    fun h h' => absurd (h.symm.trans h') (by decide), hgoal⟩

/-- One step of a program whose precondition holds. -/
theorem step_prog_goal {p : Prog σ χ τ} {todo : List (Item σ χ τ)} (hbase : A.base a g)
    (hp : p.wp S A (goals S A post todo) c.held a trace (S.put g c.data))
    (hinv : e = .takes → c'.held = true → A.inv a g)
    (hstep : Config.stepProg S.world { c with data := S.put g c.data } (S.env g k) todo p =
      some (c', e)) :
    ∃ ws a', StepGoal S A post c.held a g trace ws a' c' := by
  have hseen := seen_load (S := S) c g k
  cases p with
  | skip | assertHeld =>
      simp only [Config.stepProg, hseen] at hstep
      cases hstep
      exact ⟨[], a, .silent hbase id (Always.here hp hbase)⟩
  | exec f =>
      simp only [Config.stepProg, hseen] at hstep
      obtain ⟨d', hf, heq⟩ := Option.map_eq_some_iff.mp hstep
      cases heq
      exact StepGoal.after hbase hp hf
  | lock =>
      simp only [Config.stepProg, hseen] at hstep
      cases hstep
      have hlocked := hp a g hbase (hinv rfl rfl)
      rw [S.put_put] at hlocked
      exact ⟨[], a, .silent hbase (fun _ => rfl) hlocked⟩
  | tryLock interrupted =>
      simp only [Config.stepProg, hseen] at hstep
      split at hstep
      · cases hstep
        exact ⟨[], a, .silent hbase id hp.2⟩
      · cases hstep
        have hlocked := hp.1 a g hbase (hinv rfl rfl)
        rw [S.put_put] at hlocked
        exact ⟨[], a, .silent hbase (fun _ => rfl) hlocked⟩
  | unlock =>
      simp only [Config.stepProg, hseen] at hstep
      cases hstep
      rw [Prog.wp, Unlocked] at hp
      obtain ⟨hheld, ws, a', hrun, hbase', hrel, hnext⟩ := hp.here hbase
      exact ⟨ws, a', hrun, hbase', fun h => absurd (hheld.symm.trans h) (by decide),
        fun _ _ => hrel, hnext⟩
  | ret ok f =>
      simp only [Config.stepProg, hseen] at hstep
      split at hstep
      case h_1 spec failed todo' hunwind =>
          cases hstep
          rw [Prog.wp, goals_unwind_call hunwind ok] at hp
          exact StepGoal.after hbase hp rfl
      case h_2 hunwind =>
          cases hstep
          rw [Prog.wp, goals_of_unwind_call hunwind ok] at hp
          exact StepGoal.after hbase hp rfl
  | goto =>
      simp only [Config.stepProg, hseen] at hstep
      obtain ⟨todo', hunwind, heq⟩ := Option.map_eq_some_iff.mp hstep
      cases heq
      rw [Prog.wp, goals_unwind_scope hunwind] at hp
      exact ⟨[], a, .silent hbase id (Always.here hp hbase)⟩
  | seq p q =>
      simp only [Config.stepProg, hseen] at hstep
      cases hstep
      exact ⟨[], a, .silent hbase id hp⟩
  | ite site test p q =>
      simp only [Config.stepProg, hseen] at hstep
      cases hstep
      rw [Prog.wp, Tested] at hp
      have htest := hp.here hbase k
      rw [S.get_put] at htest
      refine ⟨[], a, .silent hbase id ?_⟩
      split at htest
      · rename_i hc
        rw [if_pos hc]
        exact htest
      · rename_i hc
        rw [if_neg hc]
        exact htest
  | loop site pre test body =>
      simp only [Config.stepProg, hseen] at hstep
      cases hstep
      exact ⟨[], a, .silent hbase id (wp_unfold_loop hp)⟩
  | scope after body =>
      simp only [Config.stepProg, hseen] at hstep
      cases hstep
      exact ⟨[], a, .silent hbase id hp⟩
  | call spec body failed =>
      simp only [Config.stepProg, hseen] at hstep
      cases hstep
      exact ⟨[], a, .silent hbase id hp⟩

/-- One step of a call whose goals hold. -/
theorem step_goal (hbase : A.base a g)
    (hc : (goals S A post c.todo).next c.held a trace (S.put g c.data))
    (hinv : e = .takes → c'.held = true → A.inv a g)
    (hstep : Config.step S.world { c with data := S.put g c.data } (S.env g k) = some (c', e)) :
    ∃ ws a', StepGoal S A post c.held a g trace ws a' c' := by
  obtain ⟨todo, d, held⟩ := c
  cases todo with
  | nil => cases hstep
  | cons item todo =>
      cases item with
      | run p => exact step_prog_goal (c := ⟨.run p :: todo, d, held⟩) hbase hc hinv hstep
      | endScope after =>
          have hseen := seen_load (S := S) (⟨.endScope after :: todo, d, held⟩ : Config σ χ τ) g k
          simp only [Config.step, hseen] at hstep
          cases hstep
          exact ⟨[], a, .silent hbase id (Always.here hc hbase)⟩
      | endCall spec failed => cases hstep

end Step

section Runs

variable {S : LockSystem ι σ χ τ γ κ ο} {A : Abstraction γ α δ ε}
  {post : ι → List (δ × ε) → σ → Prop} {label : ο → δ} {a₀ a : α} {s t : Pool ι σ χ τ γ}

/-- What the calls and the steps from outside have executed of the abstract machine: each entry has
the number of the call, or none for a step from outside. -/
abbrev History (δ ε : Type*) := List (Option Nat × δ × ε)

/-- The part of call `i`. -/
def History.trace (h : History δ ε) (i : Nat) : List (δ × ε) :=
  (h.filter fun w => w.1 = some i).map Prod.snd

/-- The part from outside. -/
def History.others (h : History δ ε) : List δ := (h.filter fun w => w.1 = none).map fun w => w.2.1

/-- What call `i` has executed in a step. -/
def History.of (i : Nat) (ws : List (δ × ε)) : History δ ε := ws.map fun w => (some i, w)

theorem History.trace_append (h h' : History δ ε) (i : Nat) :
    History.trace (h ++ h') i = h.trace i ++ h'.trace i := by
  simp [trace]

theorem History.trace_of (i j : Nat) (ws : List (δ × ε)) :
    (of i ws).trace j = if i = j then ws else [] := by
  by_cases heq : i = j
  · simp [trace, of, heq, List.filter_map, Function.comp_def]
  · simp [trace, of, heq, List.filter_map, Function.comp_def]

theorem History.others_of (i : Nat) (ws : List (δ × ε)) : (of i ws).others = [] := by
  simp [others, of, List.filter_map, Function.comp_def]

theorem History.map_snd_of (i : Nat) (ws : List (δ × ε)) : (of i ws).map Prod.snd = ws := by
  simp [of, Function.comp_def]

/-- All programs have their preconditions, whoever starts them in whatever state, and a step from
outside executes one action of the abstract machine. -/
structure Verified (S : LockSystem ι σ χ τ γ κ ο) (A : Abstraction γ α δ ε)
    (post : ι → List (δ × ε) → σ → Prop) (label : ο → δ) : Prop where
  calls : ∀ x a g, A.base a g →
    (S.prog x).wp S.toSharing A (goals S.toSharing A (post x) ([] : List (Item σ χ τ))) false a []
      (S.put g (S.data x))
  outside : ∀ o a g, A.base a g → ∃ e a', A.step a (label o) = some (a', e) ∧
    A.base a' (S.outside o g) ∧ A.rely (a, g) (a', S.outside o g) ∧
    (A.inv a g → A.inv a' (S.outside o g))

/-- The system follows the abstract machine: `h` is what has been executed. -/
structure Pool.Serial (S : LockSystem ι σ χ τ γ κ ο) (A : Abstraction γ α δ ε)
    (post : ι → List (δ × ε) → σ → Prop) (a₀ : α) (s : Pool ι σ χ τ γ) (a : α)
    (h : History δ ε) : Prop where
  commits : A.Commits a₀ (h.map Prod.snd) a
  base : A.base a s.shared
  inv : s.Free → A.inv a s.shared
  holder : ∀ (i j : Nat) x y (c d : Config σ χ τ), s.calls[i]? = some (x, c) →
    s.calls[j]? = some (y, d) → c.held = true → d.held = true → i = j
  calls : ∀ (i : Nat) x c, s.calls[i]? = some (x, c) →
    (goals S.toSharing A (post x) c.todo).next c.held a (h.trace i) (S.put s.shared c.data)
  started : ∀ i w, (some i, w) ∈ h → i < s.calls.length

/-- The calls that have not been started have executed nothing. -/
theorem Pool.Serial.trace_nil {h : History δ ε} (hs : s.Serial S A post a₀ a h) {i : Nat}
    (hi : s.calls.length ≤ i) : h.trace i = [] := by
  rw [History.trace, List.map_eq_nil_iff, List.filter_eq_nil_iff]
  rintro ⟨j, w⟩ hmem heq
  cases of_decide_eq_true heq
  exact absurd (hs.started i w hmem) (Nat.not_lt.mpr hi)

/-- The system starts without calls. -/
theorem Pool.serial_init {g : γ} (hbase : A.base a₀ g) (hinv : A.inv a₀ g) :
    (⟨g, []⟩ : Pool ι σ χ τ γ).Serial S A post a₀ a₀ [] where
  commits := .nil a₀
  base := hbase
  inv _ := hinv
  holder := by simp
  calls := by simp
  started := by simp

/-- Only an acquisition gets hold of the lock. -/
theorem takes_of_step {w : World σ χ} {c c' : Config σ χ τ} {x : χ} {e : LockEvent}
    (hstep : c.step w x = some (c', e)) (hc : c.held = false) (hc' : c'.held = true) :
    e = .takes := by
  obtain ⟨todo, d, held⟩ := c
  cases hc
  cases todo with
  | nil => cases hstep
  | cons item k =>
      cases item with
      | endScope after =>
          cases hstep
          cases hc'
      | endCall spec failed => cases hstep
      | run p =>
          cases p with
          | lock =>
              cases hstep
              rfl
          | tryLock interrupted =>
              simp only [Config.step, Config.stepProg] at hstep
              split at hstep <;> cases hstep <;> rfl
          | exec f =>
              obtain ⟨data, -, heq⟩ := Option.map_eq_some_iff.mp hstep
              cases heq
              cases hc'
          | goto =>
              obtain ⟨k', -, heq⟩ := Option.map_eq_some_iff.mp hstep
              cases heq
              cases hc'
          | ret ok f =>
              simp only [Config.step, Config.stepProg] at hstep
              split at hstep <;> cases hstep <;> cases hc'
          | skip | assertHeld | unlock | seq | ite | loop | scope | call =>
              cases hstep
              cases hc'

/-- One call at most holds the lock. -/
def Pool.Exclusive (s : Pool ι σ χ τ γ) : Prop :=
  ∀ (i j : Nat) x y (c d : Config σ χ τ), s.calls[i]? = some (x, c) →
    s.calls[j]? = some (y, d) → c.held = true → d.held = true → i = j

/-- The calls after a step of one of them. -/
theorem Pool.getElem?_set_cases {calls : List (ι × Config σ χ τ)} {i j : Nat}
    {p q : ι × Config σ χ τ} (hi : i < calls.length) (h : (calls.set i p)[j]? = some q) :
    (i = j ∧ p = q) ∨ (i ≠ j ∧ calls[j]? = some q) := by
  by_cases heq : i = j
  · subst heq
    rw [List.getElem?_set_self hi] at h
    cases h
    exact .inl ⟨rfl, rfl⟩
  · rw [List.getElem?_set_ne heq] at h
    exact .inr ⟨heq, h⟩

/-- The calls after another has started. -/
theorem Pool.getElem?_start_cases {calls : List (ι × Config σ χ τ)} {j : Nat}
    {p q : ι × Config σ χ τ} (h : (calls ++ [p])[j]? = some q) :
    calls[j]? = some q ∨ (j = calls.length ∧ p = q) := by
  rcases Nat.lt_or_ge j calls.length with hlt | hge
  · rw [List.getElem?_append_left hlt] at h
    exact .inl h
  · rw [List.getElem?_append_right hge, List.getElem?_singleton] at h
    split at h
    · cases h
      exact .inr ⟨by omega, rfl⟩
    · cases h

/-- Whoever holds the lock, the others do not, and they get it only if nobody holds it. -/
theorem Pool.Exclusive.others (hs : s.Exclusive) {i j : Nat} {x y : ι} {c c' d : Config σ χ τ}
    {w : World σ χ} {g : σ} {k : χ} {e : LockEvent} (hc : s.calls[i]? = some (x, c))
    (hstep : Config.step w { c with data := g } k = some (c', e))
    (htakes : e = .takes → c'.held = true → s.Free) (hd : s.calls[j]? = some (y, d))
    (hheld : d.held = true) (hne : i ≠ j) : c.held = false ∧ c'.held = false := by
  have hcfalse : c.held = false := by
    refine Bool.eq_false_iff.mpr fun hcheld => hne ?_
    exact hs i j x y c d hc hd hcheld hheld
  refine ⟨hcfalse, Bool.eq_false_iff.mpr fun hctrue => ?_⟩
  have hfree := htakes (takes_of_step hstep hcfalse hctrue) hctrue
  exact absurd (hfree (y, d) (List.mem_of_getElem? hd)) (by rw [hheld]; decide)

/-- A step of a call keeps the lock exclusive. -/
theorem Pool.Exclusive.act (hs : s.Exclusive) {i : Nat} {k : κ} (hact : s.act S i k = some t) :
    t.Exclusive := by
  obtain ⟨x, c, c', e, hc, hstep, htakes, rfl⟩ := act_eq_some hact
  have hi := (List.getElem?_eq_some_iff.mp hc).1
  intro j l y z d f hd hf hdheld hfheld
  rcases getElem?_set_cases hi hd with ⟨rfl, heq⟩ | ⟨hj, hd⟩
  · cases heq
    rcases getElem?_set_cases hi hf with ⟨rfl, -⟩ | ⟨hl, hf⟩
    · rfl
    · cases (hs.others hc hstep htakes hf hfheld hl).2.symm.trans hdheld
  · rcases getElem?_set_cases hi hf with ⟨rfl, heq⟩ | ⟨hl, hf⟩
    · cases heq
      cases (hs.others hc hstep htakes hd hdheld hj).2.symm.trans hfheld
    · exact hs j l y z d f hd hf hdheld hfheld

/-- A call starts without the lock. -/
theorem Pool.Exclusive.start (hs : s.Exclusive) (x : ι) (p : Prog σ χ τ) (d : σ) :
    ({ s with calls := s.calls ++ [(x, .start p d)] } : Pool ι σ χ τ γ).Exclusive := by
  have hold : ∀ (j : Nat) y c, (s.calls ++ [(x, Config.start p d)])[j]? = some (y, c) →
      c.held = true → s.calls[j]? = some (y, c) := by
    intro j y c hc hheld
    rcases getElem?_start_cases hc with hc | ⟨-, heq⟩
    · exact hc
    · cases heq
      cases hheld
  intro i j y z c c' hc hc' hheld hheld'
  exact hs i j y z c c' (hold i y c hc hheld) (hold j z c' hc' hheld') hheld hheld'

/-- A step of a call. -/
theorem Pool.Serial.act {h : History δ ε} (hs : s.Serial S A post a₀ a h) {i : Nat} {k : κ}
    (hact : s.act S i k = some t) :
    ∃ ws a', t.Serial S A post a₀ a' (h ++ .of i ws) := by
  obtain ⟨x, c, c', e, hc, hstep, htakes, rfl⟩ := act_eq_some hact
  have hi := (List.getElem?_eq_some_iff.mp hc).1
  obtain ⟨ws, a', hgoal⟩ := step_goal hs.base (hs.calls i x c hc)
    (fun he hheld => hs.inv (htakes he hheld)) hstep
  have hothers : ∀ (j : Nat) y (d : Config σ χ τ), s.calls[j]? = some (y, d) → d.held = true →
      i ≠ j → c.held = false ∧ c'.held = false := by
    intro j y d hd hheld hne
    exact Exclusive.others hs.holder hc hstep htakes hd hheld hne
  refine ⟨ws, a', ?_, hgoal.base, ?_, Exclusive.act hs.holder hact, ?_, ?_⟩
  · rw [List.map_append, History.map_snd_of]
    exact hs.commits.append hgoal.commits
  · intro hfree
    have hc'false : c'.held = false :=
      hfree (x, c') (List.mem_of_getElem? (List.getElem?_set_self hi))
    cases hheld : c.held with
    | true => exact hgoal.inv hheld hc'false
    | false =>
        obtain ⟨rfl, hshared⟩ := hgoal.quiet hheld
        show A.inv a' (S.get c'.data)
        rw [hshared]
        refine hs.inv fun ⟨y, d⟩ hmem => ?_
        obtain ⟨j, hj, hd⟩ := List.mem_iff_getElem.mp hmem
        have hd : s.calls[j]? = some (y, d) := List.getElem?_eq_some_iff.mpr ⟨hj, hd⟩
        by_cases heq : i = j
        · subst heq
          cases hc.symm.trans hd
          exact hheld
        · exact hfree (y, d) (List.mem_of_getElem? ((List.getElem?_set_ne heq).trans hd))
  · intro j y d hd
    rw [History.trace_append, History.trace_of]
    rcases getElem?_set_cases hi hd with ⟨rfl, heq⟩ | ⟨hj, hd⟩
    · cases heq
      rw [if_pos rfl, S.put_get]
      exact hgoal.next
    · rw [if_neg hj, List.append_nil]
      have hold := hs.calls j y d hd
      cases hheld : d.held with
      | true =>
          obtain ⟨hcheld, -⟩ := hothers j y d hd hheld hj
          obtain ⟨rfl, hshared⟩ := hgoal.quiet hcheld
          rw [hshared, ← hheld]
          exact hold
      | false =>
          rw [hheld] at hold
          have hnext := stable_goals d.todo _ _ _ _ hold a' (S.get c'.data) hgoal.base
            fun h => absurd h (by decide)
          rwa [S.put_put] at hnext
  · intro j w hmem
    rw [List.length_set]
    rcases List.mem_append.mp hmem with hmem | hmem
    · exact hs.started j w hmem
    · obtain ⟨v, -, heq⟩ := List.mem_map.mp hmem
      cases heq
      exact hi

/-- A call starts. -/
theorem Pool.Serial.start {h : History δ ε} (hS : Verified S A post label)
    (hs : s.Serial S A post a₀ a h) (x : ι) :
    ({ s with calls := s.calls ++ [(x, .start (S.prog x) (S.data x))] } :
      Pool ι σ χ τ γ).Serial S A post a₀ a h := by
  refine ⟨hs.commits, hs.base, fun hfree => hs.inv fun c hmem => ?_,
    Exclusive.start hs.holder x _ _, ?_, ?_⟩
  · exact hfree c (List.mem_append_left _ hmem)
  · intro j y d hd
    rcases getElem?_start_cases hd with hd | ⟨rfl, heq⟩
    · exact hs.calls j y d hd
    · cases heq
      rw [hs.trace_nil (Nat.le_refl _)]
      exact hS.calls x a s.shared hs.base
  · intro j w hmem
    rw [List.length_append]
    exact Nat.lt_add_right _ (hs.started j w hmem)

/-- A step from outside. -/
theorem Pool.Serial.outside {h : History δ ε} (hS : Verified S A post label)
    (hs : s.Serial S A post a₀ a h) (o : ο) :
    ∃ e a', ({ s with shared := S.outside o s.shared } : Pool ι σ χ τ γ).Serial S A post a₀ a'
      (h ++ [(none, label o, e)]) := by
  obtain ⟨e, a', hstep, hbase, hrely, hinv⟩ := hS.outside o a s.shared hs.base
  refine ⟨e, a', ?_, hbase, fun hfree => hinv (hs.inv hfree), hs.holder, ?_, ?_⟩
  · rw [List.map_append]
    exact hs.commits.append (.one hstep)
  · intro j y d hd
    have hnext := stable_goals d.todo _ _ _ _ (hs.calls j y d hd) a' (S.outside o s.shared) hbase
      fun _ => by rwa [S.get_put]
    rw [S.put_put] at hnext
    rw [History.trace_append]
    simpa [History.trace] using hnext
  · intro j w hmem
    rcases List.mem_append.mp hmem with hmem | hmem
    · exact hs.started j w hmem
    · cases List.mem_singleton.mp hmem

/-- The steps from outside among these. -/
def PoolAction.outsides (actions : List (PoolAction ι κ ο)) : List ο :=
  actions.filterMap fun
    | .outside o => some o
    | _ => none

/-- The action is a step of call `i`. -/
def PoolAction.isStepOf (i : Nat) : PoolAction ι κ ο → Bool
  | act j _ => j == i
  | start _ | outside _ => false

/-- What a step may add to the history: a call executes only in its own steps, and a step from
outside is one entry. -/
def PoolAction.Adds (label : ο → δ) : PoolAction ι κ ο → History δ ε → Prop
  | start _, new => new = []
  | act i _, new => ∃ ws, new = .of i ws
  | outside o, new => ∃ e, new = [(none, label o, e)]

/-- Everything of call `i` comes before everything of call `j`. -/
def History.Precedes (h : History δ ε) (i j : Nat) : Prop :=
  ∃ before after, h = before ++ after ∧ (∀ w ∈ before, w.1 ≠ some j) ∧ ∀ w ∈ after, w.1 ≠ some i

/-- One order for a run: `h k` is what the first `k` steps have executed, each step adds what
belongs to it, and in the whole order a call that has returned precedes every call that starts
later. -/
structure Pool.Ordered (S : LockSystem ι σ χ τ γ κ ο) (label : ο → δ) (s₀ : Pool ι σ χ τ γ)
    (actions : List (PoolAction ι κ ο)) (h : Nat → History δ ε) : Prop where
  start : h 0 = []
  grows (k : Nat) (b : PoolAction ι κ ο) : actions[k]? = some b →
    ∃ new, h (k + 1) = h k ++ new ∧ b.Adds label new
  realTime (k : Nat) (s : Pool ι σ χ τ γ) (us : List Unit) (i j : Nat) (x : ι)
    (c : Config σ χ τ) : Machine.run (Pool.step S) s₀ (actions.take k) = some (s, us) →
    s.calls[i]? = some (x, c) → c.todo = [] → s.calls.length ≤ j →
    (h actions.length).Precedes i j

/-- One step follows the abstract machine. -/
theorem Pool.Serial.step {h : History δ ε} (hS : Verified S A post label)
    (hs : s.Serial S A post a₀ a h) {b : PoolAction ι κ ο} {u : Unit}
    (hstep : s.step S b = some (t, u)) :
    ∃ new a', b.Adds label new ∧ t.Serial S A post a₀ a' (h ++ new) := by
  cases b with
  | start x =>
      cases hstep
      exact ⟨[], a, rfl, by rw [List.append_nil]; exact hs.start hS x⟩
  | act i k =>
      obtain ⟨t', hact, heq⟩ := Option.map_eq_some_iff.mp hstep
      cases heq
      obtain ⟨ws, a', ht⟩ := hs.act hact
      exact ⟨_, a', ⟨ws, rfl⟩, ht⟩
  | outside o =>
      cases hstep
      obtain ⟨e, a', ht⟩ := hs.outside hS o
      exact ⟨_, a', ⟨e, rfl⟩, ht⟩

/-- A run follows the abstract machine. -/
theorem Pool.serial_run {h₀ : History δ ε} (hS : Verified S A post label)
    (hs : s.Serial S A post a₀ a h₀) {actions : List (PoolAction ι κ ο)} {us : List Unit}
    (hrun : Machine.run (Pool.step S) s actions = some (t, us)) :
    ∃ h : Nat → History δ ε, h 0 = h₀ ∧
      (∀ k b, actions[k]? = some b → ∃ new, h (k + 1) = h k ++ new ∧ b.Adds label new) ∧
      ∀ k u vs, Machine.run (Pool.step S) s (actions.take k) = some (u, vs) →
        ∃ a', u.Serial S A post a₀ a' (h k) := by
  induction actions generalizing s a h₀ us with
  | nil =>
      refine ⟨fun _ => h₀, rfl, by simp, fun k u vs hu => ?_⟩
      rw [List.take_nil] at hu
      cases hu
      exact ⟨a, hs⟩
  | cons b rest ih =>
      obtain ⟨middle, e, tail, hfirst, hrest, -⟩ := Machine.run_cons_eq_some.mp hrun
      obtain ⟨new, a₁, hadds, hmiddle⟩ := hs.step hS hfirst
      obtain ⟨h, hzero, hgrows, hserial⟩ := ih hmiddle hrest
      refine ⟨fun k => k.casesOn h₀ h, rfl, fun k b' hb => ?_, fun k u vs hu => ?_⟩
      · cases k with
        | zero =>
            cases hb
            exact ⟨new, hzero, hadds⟩
        | succ k => exact hgrows k b' hb
      · cases k with
        | zero =>
            cases hu
            exact ⟨a, hs⟩
        | succ k =>
            obtain ⟨middle', e', tail', hfirst', hrest', -⟩ := Machine.run_cons_eq_some.mp hu
            cases hfirst.symm.trans hfirst'
            exact hserial k u tail' hrest'

/-- The others leave a call where it is. -/
theorem Pool.calls_of_other_step {b : PoolAction ι κ ο} {u : Unit} {i : Nat} {x : ι}
    {c : Config σ χ τ} (hstep : s.step S b = some (t, u)) (hother : b.isStepOf i = false)
    (hc : s.calls[i]? = some (x, c)) : t.calls[i]? = some (x, c) := by
  cases b with
  | start y =>
      cases hstep
      exact (List.getElem?_append_left (List.getElem?_eq_some_iff.mp hc).1).trans hc
  | outside o =>
      cases hstep
      exact hc
  | act j k =>
      obtain ⟨t', hact, heq⟩ := Option.map_eq_some_iff.mp hstep
      cases heq
      obtain ⟨y, d, c', e, -, -, -, rfl⟩ := act_eq_some hact
      exact (List.getElem?_set_ne (ne_of_beq_false hother)).trans hc

/-- A call that has returned makes no more steps. -/
theorem Pool.no_step_of_returned {i : Nat} {x : ι} {c : Config σ χ τ}
    {actions : List (PoolAction ι κ ο)} {us : List Unit} (hc : s.calls[i]? = some (x, c))
    (htodo : c.todo = []) (hrun : Machine.run (Pool.step S) s actions = some (t, us)) :
    ∀ b ∈ actions, b.isStepOf i = false := by
  induction actions generalizing s us with
  | nil => simp
  | cons b rest ih =>
      obtain ⟨middle, e, tail, hstep, hrest, -⟩ := Machine.run_cons_eq_some.mp hrun
      have hother : b.isStepOf i = false := by
        cases b with
        | start y => rfl
        | outside o => rfl
        | act j k =>
            refine Bool.eq_false_iff.mpr fun hown => ?_
            obtain rfl : j = i := eq_of_beq hown
            obtain ⟨t', hact, -⟩ := Option.map_eq_some_iff.mp hstep
            obtain ⟨y, d, c', e, hd, hmoves, -⟩ := act_eq_some hact
            cases hc.symm.trans hd
            simp [Config.step, htodo] at hmoves
      intro b' hmem
      rcases List.mem_cons.mp hmem with rfl | hmem
      · exact hother
      · exact ih (calls_of_other_step hstep hother hc) hrest b' hmem

/-- What a step adds for a call is added by a step of that call. -/
theorem PoolAction.Adds.is_step_of {b : PoolAction ι κ ο} {new : History δ ε}
    (h : b.Adds label new) {w : Option Nat × δ × ε} (hw : w ∈ new) {i : Nat} (hi : w.1 = some i) :
    b.isStepOf i = true := by
  cases b with
  | start x =>
      rw [show new = [] from h] at hw
      cases hw
  | act j k =>
      obtain ⟨ws, rfl⟩ := h
      obtain ⟨v, -, rfl⟩ := List.mem_map.mp hw
      exact beq_iff_eq.mpr (Option.some.inj hi)
  | outside o =>
      obtain ⟨e, rfl⟩ := h
      cases List.mem_singleton.mp hw
      cases hi

/-- The history after more steps, with what these have added. -/
theorem History.append_of_grows {actions : List (PoolAction ι κ ο)} {h : Nat → History δ ε}
    (hgrows : ∀ k b, actions[k]? = some b → ∃ new, h (k + 1) = h k ++ new ∧ b.Adds label new)
    {k n : Nat} (hn : k + n ≤ actions.length) :
    ∃ added, h (k + n) = h k ++ added ∧
      ∀ w ∈ added, ∀ i, w.1 = some i → ∃ b ∈ actions.drop k, b.isStepOf i = true := by
  induction n with
  | zero => exact ⟨[], (List.append_nil _).symm, by simp⟩
  | succ n ih =>
      obtain ⟨added, heq, hadded⟩ := ih (by omega)
      have hlt : k + n < actions.length := by omega
      obtain ⟨new, hnext, hadds⟩ := hgrows (k + n) _ (List.getElem?_eq_getElem hlt)
      refine ⟨added ++ new, ?_, fun w hw i hi => ?_⟩
      · rw [← Nat.add_assoc, hnext, heq, List.append_assoc]
      · rcases List.mem_append.mp hw with hw | hw
        · exact hadded w hw i hi
        · refine ⟨_, ?_, hadds.is_step_of hw hi⟩
          refine List.mem_of_getElem? (i := n) ?_
          rw [List.getElem?_drop]
          exact List.getElem?_eq_getElem hlt

/-- The system follows the abstract machine in one order for the whole run. -/
theorem Pool.ordered_run {g : γ} (hS : Verified S A post label) (hbase : A.base a₀ g)
    (hinv : A.inv a₀ g) {actions : List (PoolAction ι κ ο)} {us : List Unit}
    (hrun : Machine.run (Pool.step S) ⟨g, []⟩ actions = some (t, us)) :
    ∃ h : Nat → History δ ε, Pool.Ordered S label ⟨g, []⟩ actions h ∧
      ∀ k u vs, Machine.run (Pool.step S) ⟨g, []⟩ (actions.take k) = some (u, vs) →
        ∃ a, u.Serial S A post a₀ a (h k) := by
  obtain ⟨h, hzero, hgrows, hserial⟩ := serial_run hS (serial_init hbase hinv) hrun
  refine ⟨h, ⟨hzero, hgrows, fun k s vs i j x c hs hc htodo hj => ?_⟩, hserial⟩
  rcases Nat.lt_or_ge actions.length k with hlt | hle
  · -- the run has ended before, and call `j` has not been started in it
    have htake : actions.take k = actions.take actions.length := by
      rw [List.take_of_length_le (Nat.le_of_lt hlt), List.take_length]
    rw [htake] at hs
    obtain ⟨a, hend⟩ := hserial _ s vs hs
    refine ⟨_, [], (List.append_nil _).symm, ?_, by simp⟩
    rintro ⟨-, w⟩ hmem rfl
    exact absurd (hend.started j w hmem) (Nat.not_lt.mpr hj)
  · obtain ⟨n, hn⟩ := Nat.exists_eq_add_of_le hle
    obtain ⟨added, heq, hadded⟩ := History.append_of_grows (n := n) hgrows (Nat.le_of_eq hn.symm)
    obtain ⟨a, hmiddle⟩ := hserial k s vs hs
    rw [hn]
    refine ⟨h k, added, heq, ?_, ?_⟩
    · rintro ⟨-, w⟩ hmem rfl
      exact absurd (hmiddle.started j w hmem) (Nat.not_lt.mpr hj)
    · intro w hmem hi
      obtain ⟨b, hb, hown⟩ := hadded w hmem i hi
      rw [← List.take_append_drop k actions, Machine.run_append hs] at hrun
      obtain ⟨⟨t', vs'⟩, hrest, -⟩ := Option.map_eq_some_iff.mp hrun
      cases hown.symm.trans (no_step_of_returned hc htodo hrest b hb)

/-- The steps from outside are executed in the order in which they come. -/
theorem Pool.Ordered.others {s₀ : Pool ι σ χ τ γ} {actions : List (PoolAction ι κ ο)}
    {h : Nat → History δ ε} (ho : Pool.Ordered S label s₀ actions h) {k : Nat}
    (hk : k ≤ actions.length) :
    (h k).others = (PoolAction.outsides (actions.take k)).map label := by
  induction k with
  | zero =>
      rw [ho.start]
      rfl
  | succ k ih =>
      obtain ⟨new, heq, hadds⟩ := ho.grows k _ (List.getElem?_eq_getElem hk)
      have htake : actions.take (k + 1) = actions.take k ++ [actions[k]] :=
        List.take_succ_eq_append_getElem hk
      rw [htake, heq, PoolAction.outsides, List.filterMap_append, List.map_append, History.others,
        List.filter_append, List.map_append]
      refine congrArg₂ (· ++ ·) (ih (Nat.le_of_lt hk)) ?_
      generalize actions[k] = b at hadds
      cases b with
      | start x =>
          rw [show new = [] from hadds]
          rfl
      | act i c =>
          obtain ⟨ws, rfl⟩ := hadds
          exact History.others_of i ws
      | outside o =>
          obtain ⟨e, rfl⟩ := hadds
          rfl

end Runs

end Ldd3
