import Ldd3.Machine

/-!
# Programs with a lock

A small language for calls that take and drop one lock, with loops, early returns, jumps to the end
of a block and calls of functions whose two kinds of results may differ in what becomes of the lock.
The data and the tests are left open. Every step takes a choice of the environment, and while the
call does not hold the lock the environment may change the data.

`check` follows the lock through a program as a static checker does. `Prog.check_sound` is its
soundness: a checked program takes the lock only when it does not hold it, drops it and asserts it
only when it does, and returns as it should, in every step of every run. The checker may be told
that one side of a test is `dead`; it is then sound for the runs that do not go there.
-/

namespace Ldd3

/-- A program over the data `σ` and the choices `χ` of the environment; tests are named by `τ`. -/
inductive Prog (σ χ τ : Type*) where
  | skip
  /-- a step that does not concern the lock; it may kill the caller -/
  | exec (f : σ → χ → Option σ)
  | lock
  /-- `if (mutex_lock_interruptible(..)) interrupted` -/
  | tryLock (interrupted : Prog σ χ τ)
  | unlock
  | assertHeld
  /-- return with the first or the second kind of result -/
  | ret (ok : Bool) (f : σ → χ → σ)
  /-- jump to the end of the innermost `scope` -/
  | goto
  | seq (p q : Prog σ χ τ)
  | ite (site : τ) (c : σ → χ → Bool) (p q : Prog σ χ τ)
  /-- `while (c) body`, where `pre` is executed before each evaluation of `c` -/
  | loop (site : τ) (pre : Prog σ χ τ) (c : σ → χ → Bool) (body : Prog σ χ τ)
  /-- the lock is as `held` says at the end of the scope -/
  | scope (held : Bool) (body : Prog σ χ τ)
  /-- call a function that returns with the lock as `spec` says for each kind of result, and go on
  with `failed` after the second kind -/
  | call (spec : Bool → Bool) (body failed : Prog σ χ τ)

/-- What is left to do. -/
inductive Item (σ χ τ : Type*) where
  | run (p : Prog σ χ τ)
  | endScope (held : Bool)
  | endCall (spec : Bool → Bool) (failed : Prog σ χ τ)

/-- A call on its way. -/
structure Config (σ χ τ : Type*) where
  todo : List (Item σ χ τ)
  data : σ
  held : Bool

/-- What a step does with the lock: it tries to take it, drops it, asserts that it is held, leaves a
function that has to leave it as given, or returns from the call. -/
inductive LockEvent where
  | quiet
  | takes
  | drops
  | asserts
  | leaves (held : Bool)
  | returns
  deriving DecidableEq, Repr

/-- The lock is as the event demands. -/
def LockEvent.Allowed (held : Bool) : LockEvent → Prop
  | quiet => True
  | takes => held = false
  | drops | asserts => held = true
  | leaves expected => held = expected
  | returns => held = false

/-- The environment: what the others do to the data, and when it interrupts an acquisition. -/
structure World (σ χ : Type*) where
  others : χ → σ → σ
  interrupts : χ → Bool

variable {σ χ τ : Type*}

/-- The end of the innermost scope. -/
def unwindScope : List (Item σ χ τ) → Option (List (Item σ χ τ))
  | .run _ :: k => unwindScope k
  | .endScope _ :: k => some k
  | .endCall _ _ :: _ | [] => none

/-- The end of the innermost function. -/
def unwindCall : List (Item σ χ τ) →
    Option ((Bool → Bool) × Prog σ χ τ × List (Item σ χ τ))
  | .run _ :: k | .endScope _ :: k => unwindCall k
  | .endCall spec failed :: k => some (spec, failed, k)
  | [] => none

/-- The program a loop stands for. -/
def Prog.unfoldLoop (site : τ) (pre : Prog σ χ τ) (c : σ → χ → Bool) (body : Prog σ χ τ) :
    Prog σ χ τ :=
  .seq pre (.ite site c (.seq body (.loop site pre c body)) .skip)

/-- One program after the other. -/
def Prog.block : List (Prog σ χ τ) → Prog σ χ τ
  | [] => .skip
  | [p] => p
  | p :: ps => .seq p (block ps)

namespace Config

/-- The data as the next step finds them. -/
def seen (w : World σ χ) (s : Config σ χ τ) (x : χ) : σ :=
  if s.held then s.data else w.others x s.data

/-- One step of a program. -/
def stepProg (w : World σ χ) (s : Config σ χ τ) (x : χ) (k : List (Item σ χ τ)) :
    Prog σ χ τ → Option (Config σ χ τ × LockEvent)
  | .skip => some (⟨k, s.seen w x, s.held⟩, .quiet)
  | .exec f => (f (s.seen w x) x).map fun data => (⟨k, data, s.held⟩, .quiet)
  | .lock => some (⟨k, s.seen w x, true⟩, .takes)
  | .tryLock interrupted =>
      if w.interrupts x then some (⟨.run interrupted :: k, s.seen w x, s.held⟩, .takes)
      else some (⟨k, s.seen w x, true⟩, .takes)
  | .unlock => some (⟨k, s.seen w x, false⟩, .drops)
  | .assertHeld => some (⟨k, s.seen w x, s.held⟩, .asserts)
  | .ret ok f =>
      match unwindCall k with
      | some (spec, failed, k) =>
          some (⟨if ok then k else .run failed :: k, f (s.seen w x) x, s.held⟩, .leaves (spec ok))
      | none => some (⟨[], f (s.seen w x) x, s.held⟩, .returns)
  | .goto => (unwindScope k).map fun k => (⟨k, s.seen w x, s.held⟩, .quiet)
  | .seq p q => some (⟨.run p :: .run q :: k, s.seen w x, s.held⟩, .quiet)
  | .ite _ c p q =>
      some (⟨.run (if c (s.seen w x) x then p else q) :: k, s.seen w x, s.held⟩, .quiet)
  | .loop site pre c body =>
      some (⟨.run (.unfoldLoop site pre c body) :: k, s.seen w x, s.held⟩, .quiet)
  | .scope held body => some (⟨.run body :: .endScope held :: k, s.seen w x, s.held⟩, .quiet)
  | .call spec body failed =>
      some (⟨.run body :: .endCall spec failed :: k, s.seen w x, s.held⟩, .quiet)

/-- One step of a call. A function that ends without a return has no step. -/
def step (w : World σ χ) (s : Config σ χ τ) (x : χ) : Option (Config σ χ τ × LockEvent) :=
  match s.todo with
  | .run p :: k => s.stepProg w x k p
  | .endScope _ :: k => some (⟨k, s.seen w x, s.held⟩, .quiet)
  | .endCall _ _ :: _ | [] => none

/-- A call of `p` from the given data. -/
def start (p : Prog σ χ τ) (data : σ) : Config σ χ τ := ⟨[.run p], data, false⟩

end Config

/-- What the checker finds for two sides of a test: an error, that the program does not go on, or
that it goes on with the lock as given. -/
def joinExits : Option (Option Bool) → Option (Option Bool) → Option (Option Bool)
  | some none, e | e, some none => e
  | some (some a), some (some b) => if a = b then some (some a) else none
  | none, _ | _, none => none

/-- What the checker finds for one program after the other. -/
def thenExits (e : Option (Option Bool)) (f : Bool → Option (Option Bool)) :
    Option (Option Bool) :=
  match e with
  | none => none
  | some none => some none
  | some (some held) => f held

/-- What the checker finds for a loop that starts a round with the lock as `held` says and tests its
condition with the lock as `tested` says, when it has found `e` for its body. -/
def loopExits (held tested : Bool) (e : Option (Option Bool)) : Option (Option Bool) :=
  match e with
  | none => none
  | some none => some (some tested)
  | some (some again) => if again = held then some (some tested) else none

/-- Follow the lock through a program. A function has to return as `spec` says, and a jump needs a
scope that ends with the lock as `exit` says. -/
def Prog.check (dead : τ → Bool → Bool) (spec : Bool → Bool) (exit : Option Bool) :
    Prog σ χ τ → Bool → Option (Option Bool)
  | .skip, held | .exec _, held => some (some held)
  | .lock, held => if held then none else some (some true)
  | .tryLock interrupted, held =>
      if held then none else joinExits (some (some true)) (interrupted.check dead spec exit false)
  | .unlock, held => if held then some (some false) else none
  | .assertHeld, held => if held then some (some true) else none
  | .ret ok _, held => if held = spec ok then some none else none
  | .goto, held => if exit = some held then some none else none
  | .seq p q, held =>
      thenExits (p.check dead spec exit held) fun held => q.check dead spec exit held
  | .ite site _ p q, held =>
      joinExits (if dead site true then some none else p.check dead spec exit held)
        (if dead site false then some none else q.check dead spec exit held)
  | .loop site pre _ body, held =>
      thenExits (pre.check dead spec exit held) fun tested =>
        loopExits held tested
          (if dead site true then some none else body.check dead spec exit tested)
  | .scope after body, held =>
      joinExits (body.check dead spec (some after) held) (some (some after))
  | .call spec' body failed, held =>
      if body.check dead spec' none held = some none then
        joinExits (some (some (spec' true))) (failed.check dead spec exit (spec' false))
      else none

/-- The checker has found no error, and if the program goes on, then `K` holds of the lock. -/
def Goes (K : Bool → Prop) : Option (Option Bool) → Prop
  | none => False
  | some none => True
  | some (some held) => K held

/-- What the checker demands is met. -/
theorem Goes.of_if {K : Bool → Prop} {c : Prop} [Decidable c] {e : Option (Option Bool)}
    (h : Goes K (if c then e else none)) : c ∧ Goes K e := by
  split at h
  case isTrue hc => exact ⟨hc, h⟩
  case isFalse => exact h.elim

/-- What the checker forbids is not there. -/
theorem Goes.of_if_not {K : Bool → Prop} {c : Prop} [Decidable c] {e : Option (Option Bool)}
    (h : Goes K (if c then none else e)) : ¬ c ∧ Goes K e := by
  split at h
  case isTrue => exact h.elim
  case isFalse hc => exact ⟨hc, h⟩

/-- Two programs have been checked. -/
theorem goes_then_exits {K : Bool → Prop} {e : Option (Option Bool)}
    {f : Bool → Option (Option Bool)} :
    Goes K (thenExits e f) ↔ Goes (fun held => Goes K (f held)) e := by
  match e with
  | none => exact Iff.rfl
  | some none => exact Iff.rfl
  | some (some held) => exact Iff.rfl

/-- Both sides of a test have been checked. -/
theorem Goes.of_join {K : Bool → Prop} {e e' : Option (Option Bool)} (h : Goes K (joinExits e e')) :
    Goes K e ∧ Goes K e' := by
  match e, e' with
  | none, none => exact h.elim
  | none, some none => exact h.elim
  | none, some (some _) => exact h.elim
  | some none, none => exact h.elim
  | some none, some none => exact ⟨trivial, trivial⟩
  | some none, some (some b) => exact ⟨trivial, h⟩
  | some (some a), none => exact h.elim
  | some (some a), some none => exact ⟨h, trivial⟩
  | some (some a), some (some b) =>
      obtain ⟨heq, ha⟩ := Goes.of_if h
      subst heq
      exact ⟨ha, ha⟩

/-- One side of a test goes on as the other one does. -/
theorem Goes.of_join_some {K : Bool → Prop} {e : Option (Option Bool)} {a : Bool}
    (h : Goes K (joinExits e (some (some a)))) : Goes (fun held => held = a ∧ K a) e ∧ K a := by
  match e with
  | none => exact h.elim
  | some none => exact ⟨trivial, h⟩
  | some (some b) =>
      obtain ⟨heq, hb⟩ := Goes.of_if h
      subst heq
      exact ⟨⟨rfl, hb⟩, hb⟩

/-- The contract of the innermost function; the call itself returns without the lock. -/
def specOf : List (Item σ χ τ) → Bool → Bool
  | .run _ :: k | .endScope _ :: k => specOf k
  | .endCall spec _ :: _ => spec
  | [] => fun _ => false

/-- The lock at the end of the innermost scope. -/
def exitOf : List (Item σ χ τ) → Option Bool
  | .run _ :: k => exitOf k
  | .endScope held :: _ => some held
  | .endCall _ _ :: _ | [] => none

section Soundness

variable (dead : τ → Bool → Bool)

/-- What is left to do can go on with the lock as given. -/
def Resumes : List (Item σ χ τ) → Bool → Prop
  | [], _ => True
  | .run p :: k, held => Goes (Resumes k) (p.check dead (specOf k) (exitOf k) held)
  | .endScope after :: k, held => held = after ∧ Resumes k after
  | .endCall _ _ :: _, _ => False

/-- Jumps and returns arrive where what is left can go on. -/
def Lands : List (Item σ χ τ) → Prop
  | [] => True
  | .run _ :: k => Lands k
  | .endScope after :: k => Resumes dead k after ∧ Lands k
  | .endCall spec failed :: k =>
      Resumes dead k (spec true) ∧ Resumes dead (.run failed :: k) (spec false) ∧ Lands k

/-- The step does not go to a dead side of a test. -/
def Config.live (w : World σ χ) (s : Config σ χ τ) (x : χ) : Bool :=
  match s.todo with
  | .run (.ite site c _ _) :: _ => !dead site (c (s.seen w x) x)
  | _ => true

variable {dead}

/-- A jump arrives at the end of a scope. -/
theorem Lands.of_unwind_scope {k k' : List (Item σ χ τ)} (h : Lands dead k)
    (hk : unwindScope k = some k') {held : Bool} (hexit : exitOf k = some held) :
    Resumes dead k' held ∧ Lands dead k' := by
  induction k with
  | nil => cases hk
  | cons item k ih =>
      cases item with
      | run p => exact ih h hk hexit
      | endScope after =>
          cases hk
          cases hexit
          exact h
      | endCall spec failed => cases hk

/-- A return arrives at the end of a function. -/
theorem Lands.of_unwind_call {k k' : List (Item σ χ τ)} {spec : Bool → Bool} {failed : Prog σ χ τ}
    (h : Lands dead k) (hk : unwindCall k = some (spec, failed, k')) :
    specOf k = spec ∧ Resumes dead k' (spec true) ∧ Resumes dead (.run failed :: k') (spec false) ∧
      Lands dead k' := by
  induction k with
  | nil => cases hk
  | cons item k ih =>
      cases item with
      | run p => exact ih h hk
      | endScope after => exact ih h.2 hk
      | endCall spec' failed' =>
          cases hk
          exact ⟨rfl, h⟩

/-- A return that leaves no function is one of the call. -/
theorem spec_of_of_unwind_call {k : List (Item σ χ τ)} (hk : unwindCall k = none) (ok : Bool) :
    specOf k ok = false := by
  induction k with
  | nil => rfl
  | cons item k ih =>
      cases item with
      | run p => exact ih hk
      | endScope after => exact ih hk
      | endCall spec failed => cases hk

/-- The body of a checked loop does not go on, or starts the next round as this one. -/
theorem Goes.of_loop_exits {K : Bool → Prop} {held tested : Bool} {e : Option (Option Bool)}
    (h : Goes K (loopExits held tested e)) : K tested ∧ (e = some none ∨ e = some (some held)) := by
  match e with
  | none => exact h.elim
  | some none => exact ⟨h, .inl rfl⟩
  | some (some again) =>
      obtain ⟨heq, htested⟩ := Goes.of_if h
      exact ⟨htested, .inr (by rw [heq])⟩

/-- The two sides of the test of a loop. -/
theorem Goes.join_loop {K : Bool → Prop} {tested : Bool} {skip : Bool} (hK : K tested)
    {e : Option (Option Bool)} (he : e = some none ∨ e = some (some tested)) :
    Goes K (joinExits e (if skip then some none else some (some tested))) := by
  rcases he with rfl | rfl
  · cases skip with
    | true => trivial
    | false => exact hK
  · cases skip with
    | true => exact hK
    | false =>
        simp only [joinExits, Bool.false_eq_true, if_false, if_true]
        exact hK

/-- A loop that has been checked can be unfolded. -/
theorem Goes.unfold_loop {K : Bool → Prop} {spec : Bool → Bool} {exit : Option Bool} {site : τ}
    {pre body : Prog σ χ τ} {c : σ → χ → Bool} {held : Bool}
    (h : Goes K ((Prog.loop site pre c body).check dead spec exit held)) :
    Goes K ((Prog.unfoldLoop site pre c body).check dead spec exit held) := by
  refine goes_then_exits.mpr ?_
  have hloop := goes_then_exits.mp h
  cases hpre : pre.check dead spec exit held with
  | none =>
      rw [hpre] at hloop
      exact hloop.elim
  | some e =>
      cases e with
      | none => trivial
      | some tested =>
          rw [hpre] at hloop
          obtain ⟨htested, hround⟩ := Goes.of_loop_exits hloop
          refine Goes.join_loop htested ?_
          cases hdead : dead site true with
          | true => exact .inl rfl
          | false =>
              rw [hdead, if_neg nofun] at hround
              rw [if_neg nofun, Prog.check]
              rcases hround with hbody | hbody
              · rw [hbody]
                exact .inl rfl
              · -- the next round starts as this one, so its result is that of the loop
                have hnext : (Prog.loop site pre c body).check dead spec exit held =
                    some (some tested) := by
                  rw [Prog.check, hpre]
                  simp only [thenExits, loopExits, hdead, hbody, if_true, if_false,
                    Bool.false_eq_true]
                rw [hbody]
                exact .inr hnext

variable {w : World σ χ} {s t : Config σ χ τ} {x : χ} {e : LockEvent}

/-- One step of a checked program. -/
theorem Config.step_prog_sound {p : Prog σ χ τ} {k : List (Item σ χ τ)}
    (hstep : s.stepProg w x k p = some (t, e)) (hp : Resumes dead (.run p :: k) s.held)
    (hk : Lands dead k)
    (hlive : ∀ site c q r, p = .ite site c q r → dead site (c (s.seen w x) x) = false) :
    e.Allowed s.held ∧ Resumes dead t.todo t.held ∧ Lands dead t.todo := by
  cases p with
  | skip =>
      cases hstep
      exact ⟨trivial, hp, hk⟩
  | exec f =>
      obtain ⟨data, -, heq⟩ := Option.map_eq_some_iff.mp hstep
      cases heq
      exact ⟨trivial, hp, hk⟩
  | lock =>
      cases hstep
      obtain ⟨hfree, hnext⟩ := Goes.of_if_not hp
      exact ⟨Bool.eq_false_iff.mpr hfree, hnext, hk⟩
  | tryLock interrupted =>
      obtain ⟨hfree, hnext⟩ := Goes.of_if_not hp
      obtain ⟨htaken, hinterrupted⟩ := Goes.of_join hnext
      have hheld : s.held = false := Bool.eq_false_iff.mpr hfree
      simp only [stepProg] at hstep
      split at hstep
      · cases hstep
        exact ⟨hheld, hheld ▸ hinterrupted, hk⟩
      · cases hstep
        exact ⟨hheld, htaken, hk⟩
  | unlock =>
      cases hstep
      obtain ⟨hheld, hnext⟩ := Goes.of_if hp
      exact ⟨hheld, hnext, hk⟩
  | assertHeld =>
      cases hstep
      obtain ⟨hheld, hnext⟩ := Goes.of_if hp
      exact ⟨hheld, hheld ▸ hnext, hk⟩
  | ret ok f =>
      obtain ⟨hspec, -⟩ := Goes.of_if hp
      simp only [stepProg] at hstep
      split at hstep
      case h_1 spec failed k' hunwind =>
          obtain ⟨hcontract, hok, hfailed, hlands⟩ := hk.of_unwind_call hunwind
          cases hstep
          rw [hcontract] at hspec
          refine ⟨hspec, ?_⟩
          cases ok with
          | true => exact ⟨hspec ▸ hok, hlands⟩
          | false => exact ⟨hspec ▸ hfailed, hlands⟩
      case h_2 hunwind =>
          cases hstep
          exact ⟨hspec.trans (spec_of_of_unwind_call hunwind ok), trivial, trivial⟩
  | goto =>
      obtain ⟨k', hunwind, heq⟩ := Option.map_eq_some_iff.mp hstep
      cases heq
      obtain ⟨hexit, -⟩ := Goes.of_if hp
      exact ⟨trivial, hk.of_unwind_scope hunwind hexit⟩
  | seq p q =>
      cases hstep
      refine ⟨trivial, ?_, hk⟩
      exact goes_then_exits.mp hp
  | ite site c p q =>
      cases hstep
      obtain ⟨hthen, helse⟩ := Goes.of_join hp
      have hside := hlive site c p q rfl
      cases htest : c (s.seen w x) x with
      | true =>
          rw [htest] at hside
          rw [if_neg (by rw [hside]; nofun)] at hthen
          exact ⟨trivial, hthen, hk⟩
      | false =>
          rw [htest] at hside
          rw [if_neg (by rw [hside]; nofun)] at helse
          exact ⟨trivial, helse, hk⟩
  | loop site pre c body =>
      cases hstep
      exact ⟨trivial, Goes.unfold_loop hp, hk⟩
  | scope after body =>
      cases hstep
      obtain ⟨hbody, hafter⟩ := Goes.of_join_some hp
      exact ⟨trivial, hbody, hafter, hk⟩
  | call spec body failed =>
      cases hstep
      obtain ⟨hbody, hnext⟩ := Goes.of_if hp
      obtain ⟨hok, hfailed⟩ := Goes.of_join hnext
      refine ⟨trivial, ?_, hok, hfailed, hk⟩
      simp only [Resumes, specOf, exitOf, hbody]
      trivial

/-- A call goes on as it has been checked. -/
def Config.Checked (dead : τ → Bool → Bool) (s : Config σ χ τ) : Prop :=
  Resumes dead s.todo s.held ∧ Lands dead s.todo

/-- One step of a checked call that does not go to a dead side of a test: the lock is as the step
demands, and the call goes on as it has been checked. -/
theorem Config.Checked.step (hs : s.Checked dead) (hlive : s.live dead w x = true)
    (hstep : s.step w x = some (t, e)) : e.Allowed s.held ∧ t.Checked dead := by
  obtain ⟨todo, data, held⟩ := s
  obtain ⟨hresumes, hlands⟩ := hs
  cases todo with
  | nil => cases hstep
  | cons item k =>
      cases item with
      | run p =>
          refine step_prog_sound hstep hresumes hlands fun site c q r hp => ?_
          subst hp
          exact Bool.not_eq_true' _ ▸ hlive
      | endScope after =>
          cases hstep
          obtain ⟨hheld, hafter⟩ := hresumes
          exact ⟨trivial, hheld ▸ hafter, hlands.2⟩
      | endCall spec failed => cases hstep

/-- The checker is sound: in every run of a program it accepts, in which no step goes to a dead side
of a test, the lock is as every step demands. -/
theorem Prog.check_sound {p : Prog σ χ τ}
    (hcheck : (p.check dead (fun _ => false) none false).isSome = true) {data : σ} {xs : List χ}
    (hlive : ∀ s x e t, Machine.Takes (Config.step w) (Config.start p data) xs s x e t →
      s.live dead w x = true)
    (htake : Machine.Takes (Config.step w) (Config.start p data) xs s x e t) :
    e.Allowed s.held := by
  have hstart : (Config.start p data).Checked dead := by
    refine ⟨?_, trivial⟩
    show Goes (fun _ => True) (p.check dead (fun _ => false) none false)
    match p.check dead (fun _ => false) none false, hcheck with
    | some none, _ => trivial
    | some (some _), _ => trivial
  have hs : s.Checked dead := htake.source.invariant_of_guard (I := Config.Checked dead)
    (G := fun s x _ _ => s.live dead w x = true)
    (fun s x e t hs hlive hstep => (hs.step hlive hstep).2) hstart hlive
  exact (hs.step (hlive s x e t htake) htake.step_eq).1

/-- Where no side of a test is dead, it is so in every run. -/
theorem Prog.check_sound_everywhere {p : Prog σ χ τ}
    (hcheck : (p.check (fun _ _ => false) (fun _ => false) none false).isSome = true) {data : σ}
    {xs : List χ} (htake : Machine.Takes (Config.step w) (Config.start p data) xs s x e t) :
    e.Allowed s.held := by
  refine check_sound hcheck (fun s x e t _ => ?_) htake
  unfold Config.live
  split <;> rfl

end Soundness

end Ldd3
