import Ldd3.LockSystem

/-!
# How long a lock is held

A static bound on the number of steps that a call makes with the lock. `releases n todo` follows
every path through what is left to do, whatever the tests find, and says that the lock is dropped
within `n` steps; `Prog.bounded n` says so for every place at which a program takes the lock. The
paths do not go around a loop with the lock, and they do not take it a second time.

`Pool.Bounded.drops` is what it is for: in a system of checked programs, whatever the other calls do
meanwhile, the holder of the lock has dropped it after `n` of its own steps, and
`Pool.Bounded.holder_steps` says that it can make the next one, unless it dies.
-/

namespace Ldd3

variable {ι σ χ τ γ κ ο : Type*}

/-- What is left to do drops the lock within so many steps, whatever the tests find. -/
def releases : Nat → List (Item σ χ τ) → Bool
  | 0, _ => false
  | n + 1, .run p :: k =>
      match p with
      | .skip | .exec _ | .assertHeld => releases n k
      | .lock | .tryLock _ => false
      | .unlock => true
      | .ret ok _ =>
          match unwindCall k with
          | some (_, failed, k) => releases n (if ok then k else .run failed :: k)
          | none => false
      | .goto =>
          match unwindScope k with
          | some k => releases n k
          | none => false
      | .seq p q => releases n (.run p :: .run q :: k)
      | .ite _ _ p q => releases n (.run p :: k) && releases n (.run q :: k)
      | .loop site pre c body => releases n (.run (.unfoldLoop site pre c body) :: k)
      | .scope held body => releases n (.run body :: .endScope held :: k)
      | .call spec body failed => releases n (.run body :: .endCall spec failed :: k)
  | n + 1, .endScope _ :: k => releases n k
  | _ + 1, .endCall _ _ :: _ => false
  | _ + 1, [] => false

/-- Wherever the program takes the lock, it drops it within so many steps; `k` is what comes after
the program. -/
def Prog.bounded (n : Nat) : Prog σ χ τ → List (Item σ χ τ) → Bool
  | .lock, k => releases n k
  | .tryLock interrupted, k => releases n k && interrupted.bounded n k
  | .seq p q, k => p.bounded n (.run q :: k) && q.bounded n k
  | .ite _ _ p q, k => p.bounded n k && q.bounded n k
  | .loop site pre c body, k =>
      pre.bounded n (.run (.ite site c (.seq body (.loop site pre c body)) .skip) :: k) &&
        body.bounded n (.run (.loop site pre c body) :: k)
  | .scope held body, k => body.bounded n (.endScope held :: k)
  | .call spec body failed, k => body.bounded n (.endCall spec failed :: k) && failed.bounded n k
  | .skip, _ | .exec _, _ | .unlock, _ | .assertHeld, _ | .ret _ _, _ | .goto, _ => true

/-- A property of a program and of what comes after it that its parts inherit. -/
structure Hereditary (Q : Prog σ χ τ → List (Item σ χ τ) → Prop) : Prop where
  tryLock (p k) : Q (.tryLock p) k → Q p k
  seq (p q k) : Q (.seq p q) k → Q p (.run q :: k) ∧ Q q k
  ite (site c p q k) : Q (.ite site c p q) k → Q p k ∧ Q q k
  loop (site p c q k) : Q (.loop site p c q) k → Q (.unfoldLoop site p c q) k
  scope (held p k) : Q (.scope held p) k → Q p (.endScope held :: k)
  call (spec p q k) : Q (.call spec p q) k → Q p (.endCall spec q :: k) ∧ Q q k

/-- What is left to do has the property. -/
def Everywhere (Q : Prog σ χ τ → List (Item σ χ τ) → Prop) : List (Item σ χ τ) → Prop
  | [] => True
  | .run p :: k => Q p k ∧ Everywhere Q k
  | .endScope _ :: k => Everywhere Q k
  | .endCall _ failed :: k => Q failed k ∧ Everywhere Q k

/-- A jump leaves less to do. -/
theorem Everywhere.unwind_scope {Q : Prog σ χ τ → List (Item σ χ τ) → Prop}
    {k k' : List (Item σ χ τ)} (h : Everywhere Q k) (hk : unwindScope k = some k') :
    Everywhere Q k' := by
  induction k with
  | nil => cases hk
  | cons item k ih =>
      cases item with
      | run p => exact ih h.2 hk
      | endScope held =>
          cases hk
          exact h
      | endCall spec failed => cases hk

/-- So does a return. -/
theorem Everywhere.unwind_call {Q : Prog σ χ τ → List (Item σ χ τ) → Prop}
    {k k' : List (Item σ χ τ)} {spec : Bool → Bool} {failed : Prog σ χ τ} (h : Everywhere Q k)
    (hk : unwindCall k = some (spec, failed, k')) : Everywhere Q (.run failed :: k') := by
  induction k with
  | nil => cases hk
  | cons item k ih =>
      cases item with
      | run p => exact ih h.2 hk
      | endScope held => exact ih h hk
      | endCall spec' failed' =>
          cases hk
          exact h

/-- What is left after a step has the property. -/
theorem Everywhere.step {Q : Prog σ χ τ → List (Item σ χ τ) → Prop} (hQ : Hereditary Q)
    {w : World σ χ} {c c' : Config σ χ τ} {x : χ} {e : LockEvent} (h : Everywhere Q c.todo)
    (hstep : c.step w x = some (c', e)) : Everywhere Q c'.todo := by
  obtain ⟨todo, d, held⟩ := c
  match todo with
  | [] => cases hstep
  | .endCall spec failed :: k => cases hstep
  | .endScope after :: k =>
      cases hstep
      exact h
  | .run p :: k =>
      obtain ⟨hp, hk⟩ := h
      cases p with
      | skip | lock | unlock | assertHeld =>
          cases hstep
          exact hk
      | exec f =>
          obtain ⟨d', -, heq⟩ := Option.map_eq_some_iff.mp hstep
          cases heq
          exact hk
      | tryLock interrupted =>
          simp only [Config.step, Config.stepProg] at hstep
          split at hstep
          · cases hstep
            exact ⟨hQ.tryLock _ _ hp, hk⟩
          · cases hstep
            exact hk
      | ret ok f =>
          simp only [Config.step, Config.stepProg] at hstep
          split at hstep
          · rename_i spec failed k' hunwind
            cases hstep
            have hrest := hk.unwind_call hunwind
            cases ok with
            | true => exact hrest.2
            | false => exact hrest
          · cases hstep
            trivial
      | goto =>
          obtain ⟨k', hunwind, heq⟩ := Option.map_eq_some_iff.mp hstep
          cases heq
          exact hk.unwind_scope hunwind
      | seq p q =>
          cases hstep
          obtain ⟨hp, hq⟩ := hQ.seq _ _ _ hp
          exact ⟨hp, hq, hk⟩
      | ite site test p q =>
          cases hstep
          obtain ⟨hp, hq⟩ := hQ.ite _ _ _ _ _ hp
          refine ⟨?_, hk⟩
          split
          · exact hp
          · exact hq
      | loop site pre test body =>
          cases hstep
          exact ⟨hQ.loop _ _ _ _ _ hp, hk⟩
      | scope after body =>
          cases hstep
          exact ⟨hQ.scope _ _ _ hp, hk⟩
      | call spec body failed =>
          cases hstep
          obtain ⟨hbody, hfailed⟩ := hQ.call _ _ _ _ hp
          exact ⟨hbody, hfailed, hk⟩

/-- Where the program takes the lock it is bounded. -/
theorem hereditary_bounded (n : Nat) :
    Hereditary fun (p : Prog σ χ τ) k => p.bounded n k = true where
  tryLock _ _ h := (Bool.and_eq_true_iff.mp h).2
  seq _ _ _ h := Bool.and_eq_true_iff.mp h
  ite _ _ _ _ _ h := Bool.and_eq_true_iff.mp h
  loop site p c q k h := by
    obtain ⟨hpre, hbody⟩ := Bool.and_eq_true_iff.mp h
    simp only [Prog.unfoldLoop, Prog.bounded, hpre, hbody, Bool.and_self]
  scope _ _ _ h := h
  call _ _ _ _ h := Bool.and_eq_true_iff.mp h

/-- The statements of a program kill the caller only on bad data. -/
def Prog.DiesOn (Bad : σ → Prop) : Prog σ χ τ → Prop
  | .exec f => ∀ d x, f d x = none → Bad d
  | .tryLock p | .scope _ p => p.DiesOn Bad
  | .seq p q | .ite _ _ p q | .loop _ p _ q | .call _ p q => p.DiesOn Bad ∧ q.DiesOn Bad
  | .skip | .lock | .unlock | .assertHeld | .ret _ _ | .goto => True

theorem hereditary_dies_on (Bad : σ → Prop) :
    Hereditary fun (p : Prog σ χ τ) _ => p.DiesOn Bad where
  tryLock _ _ h := h
  seq _ _ _ h := h
  ite _ _ _ _ _ h := h
  loop _ _ _ _ _ h := ⟨h.1, ⟨h.2, h⟩, trivial⟩
  scope _ _ _ h := h
  call _ _ _ _ h := h

namespace Config

/-- The call holds the lock only on the way to a place that drops it. -/
structure Bounded (n : Nat) (c : Config σ χ τ) : Prop where
  takes : Everywhere (fun p k => p.bounded n k = true) c.todo
  drops : c.held = true → ∃ m, m ≤ n ∧ releases m c.todo = true

/-- The call is about to take the lock. -/
def Waits (c : Config σ χ τ) : Prop :=
  ∃ k, c.todo = .run .lock :: k ∨ ∃ interrupted, c.todo = .run (.tryLock interrupted) :: k

variable {w : World σ χ} {c c' : Config σ χ τ} {x : χ} {e : LockEvent} {n m : Nat}

/-- A step with the lock drops it, or there are fewer steps left until the lock is dropped. -/
theorem releases_step (h : releases (m + 1) c.todo = true) (hheld : c.held = true)
    (hstep : c.step w x = some (c', e)) :
    e ≠ .takes ∧ (c'.held = false ∨ (c'.held = true ∧ releases m c'.todo = true)) := by
  obtain ⟨todo, d, held⟩ := c
  cases hheld
  match todo with
  | [] => cases hstep
  | .endCall spec failed :: k => cases hstep
  | .endScope after :: k =>
      cases hstep
      exact ⟨by simp, .inr ⟨rfl, h⟩⟩
  | .run p :: k =>
      cases p with
      | skip | assertHeld | seq | loop | scope | call =>
          cases hstep
          exact ⟨by simp, .inr ⟨rfl, h⟩⟩
      | exec f =>
          obtain ⟨d', -, heq⟩ := Option.map_eq_some_iff.mp hstep
          cases heq
          exact ⟨by simp, .inr ⟨rfl, h⟩⟩
      | lock | tryLock => cases h
      | unlock =>
          cases hstep
          exact ⟨by simp, .inl rfl⟩
      | ret ok f =>
          simp only [step, stepProg] at hstep
          simp only [releases] at h
          split at hstep
          · rename_i spec failed k' hunwind
            cases hstep
            rw [hunwind] at h
            exact ⟨by simp, .inr ⟨rfl, h⟩⟩
          · rename_i hunwind
            rw [hunwind] at h
            cases h
      | goto =>
          obtain ⟨k', hunwind, heq⟩ := Option.map_eq_some_iff.mp hstep
          cases heq
          simp only [releases, hunwind] at h
          exact ⟨by simp, .inr ⟨rfl, h⟩⟩
      | ite site test p q =>
          cases hstep
          obtain ⟨hp, hq⟩ := Bool.and_eq_true_iff.mp h
          refine ⟨by simp, .inr ⟨rfl, ?_⟩⟩
          split
          · exact hp
          · exact hq

/-- Where a call has taken the lock, it drops it within the bound. -/
theorem releases_of_takes (h : Everywhere (fun p k => p.bounded n k = true) c.todo)
    (hheld : c.held = false) (hstep : c.step w x = some (c', e)) (hheld' : c'.held = true) :
    releases n c'.todo = true := by
  obtain ⟨todo, d, held⟩ := c
  cases hheld
  match todo with
  | [] => cases hstep
  | .endCall spec failed :: k => cases hstep
  | .endScope after :: k =>
      cases hstep
      cases hheld'
  | .run p :: k =>
      have hp := h.1
      cases p with
      | lock =>
          cases hstep
          exact hp
      | tryLock interrupted =>
          simp only [step, stepProg] at hstep
          split at hstep
          · cases hstep
            cases hheld'
          · cases hstep
            exact (Bool.and_eq_true_iff.mp hp).1
      | exec f =>
          obtain ⟨d', -, heq⟩ := Option.map_eq_some_iff.mp hstep
          cases heq
          cases hheld'
      | ret ok f =>
          simp only [step, stepProg] at hstep
          split at hstep <;> cases hstep <;> cases hheld'
      | goto =>
          obtain ⟨k', -, heq⟩ := Option.map_eq_some_iff.mp hstep
          cases heq
          cases hheld'
      | skip | assertHeld | unlock | seq | ite | loop | scope | call =>
          cases hstep
          cases hheld'

/-- Every step keeps the bound. -/
theorem Bounded.step (hc : c.Bounded n) (hstep : c.step w x = some (c', e)) : c'.Bounded n := by
  refine ⟨hc.takes.step (hereditary_bounded n) hstep, fun hheld' => ?_⟩
  cases hheld : c.held with
  | false => exact ⟨n, Nat.le_refl n, releases_of_takes hc.takes hheld hstep hheld'⟩
  | true =>
      obtain ⟨m, hm, hrel⟩ := hc.drops hheld
      cases m with
      | zero => cases hrel
      | succ m =>
          rcases (releases_step hrel hheld hstep).2 with hfree | ⟨-, hrel'⟩
          · rw [hfree] at hheld'
            cases hheld'
          · exact ⟨m, by omega, hrel'⟩

/-- The data of a call do not matter to the bound. -/
theorem Bounded.load (hc : c.Bounded n) (d : σ) :
    ({ c with data := d } : Config σ χ τ).Bounded n :=
  ⟨hc.takes, hc.drops⟩

end Config

namespace Pool

/-- The calls of a system drop the lock within so many steps and die only on bad data, and one at
most holds the lock. -/
structure Bounded (n : Nat) (Bad : σ → Prop) (s : Pool ι σ χ τ γ) : Prop where
  calls (i : Nat) (x : ι) (c : Config σ χ τ) : s.calls[i]? = some (x, c) →
    c.Bounded n ∧ Everywhere (fun p _ => p.DiesOn Bad) c.todo
  exclusive : s.Exclusive

section Bounds

variable {S : LockSystem ι σ χ τ γ κ ο} {s t : Pool ι σ χ τ γ} {n m i : Nat} {x : ι}
  {c : Config σ χ τ} {Bad : σ → Prop} {k : κ}

/-- A step of a call keeps the bound. -/
theorem Bounded.act (hs : s.Bounded n Bad) (hact : s.act S i k = some t) : t.Bounded n Bad := by
  refine ⟨fun j y d hd => ?_, hs.exclusive.act hact⟩
  obtain ⟨x, c, c', e, hc, hstep, -, rfl⟩ := act_eq_some hact
  have hi := (List.getElem?_eq_some_iff.mp hc).1
  rcases getElem?_set_cases hi hd with ⟨-, heq⟩ | ⟨-, hd⟩
  · cases heq
    obtain ⟨hbounded, hdies⟩ := hs.calls i _ c hc
    exact ⟨(hbounded.load _).step hstep, Everywhere.step (hereditary_dies_on Bad)
      (c := { c with data := S.put s.shared c.data }) hdies hstep⟩
  · exact hs.calls j y d hd

/-- Every step of a system of bounded programs keeps the bound. -/
theorem Bounded.step (hS : ∀ x, (S.prog x).bounded n [] = true ∧ (S.prog x).DiesOn Bad)
    (hs : s.Bounded n Bad) {a : PoolAction ι κ ο} {u : Unit} (h : s.step S a = some (t, u)) :
    t.Bounded n Bad := by
  cases a with
  | start x =>
      cases h
      refine ⟨fun j y d hd => ?_, hs.exclusive.start x _ _⟩
      rcases getElem?_start_cases hd with hd | ⟨-, heq⟩
      · exact hs.calls j y d hd
      · cases heq
        exact ⟨⟨⟨(hS x).1, trivial⟩, nofun⟩, (hS x).2, trivial⟩
  | act i k =>
      obtain ⟨t', hact, heq⟩ := Option.map_eq_some_iff.mp h
      cases heq
      exact hs.act hact
  | outside o =>
      cases h
      exact ⟨hs.calls, hs.exclusive⟩

/-- Without its holder the lock is free. -/
theorem free_of_dropped (hs : s.Exclusive) (hc : s.calls[i]? = some (x, c)) (hheld : c.held = true)
    {c' : Config σ χ τ} {g : γ} (hc' : c'.held = false) :
    (⟨g, s.calls.set i (x, c')⟩ : Pool ι σ χ τ γ).Free := by
  rintro ⟨y, d⟩ hmem
  obtain ⟨j, hd⟩ := List.mem_iff_getElem?.mp hmem
  have hi := (List.getElem?_eq_some_iff.mp hc).1
  rcases getElem?_set_cases hi hd with ⟨-, heq⟩ | ⟨hne, hd⟩
  · cases heq
    exact hc'
  · refine Bool.eq_false_iff.mpr fun hdheld => hne ?_
    exact hs i j x y c d hc hd hheld hdheld

/-- A step of the holder drops the lock, or there are fewer steps left to it. -/
theorem Bounded.holder_step (hs : s.Bounded n Bad) (hc : s.calls[i]? = some (x, c))
    (hheld : c.held = true) (hrel : releases (m + 1) c.todo = true) (hact : s.act S i k = some t) :
    t.Free ∨ ∃ c', t.calls[i]? = some (x, c') ∧ c'.held = true ∧ releases m c'.todo = true := by
  obtain ⟨y, d, c', e, hd, hstep, -, rfl⟩ := act_eq_some hact
  cases hc.symm.trans hd
  have hi := (List.getElem?_eq_some_iff.mp hc).1
  rcases (Config.releases_step (c := { c with data := S.put s.shared c.data }) hrel hheld
    hstep).2 with hfree | ⟨hheld', hrel'⟩
  · exact .inl (free_of_dropped hs.exclusive hc hheld hfree)
  · exact .inr ⟨c', List.getElem?_set_self hi, hheld', hrel'⟩

/-- The holder of the lock has dropped it after as many of its own steps as are left to it, whatever
happens in between. -/
theorem Bounded.drops (hS : ∀ x, (S.prog x).bounded n [] = true ∧ (S.prog x).DiesOn Bad)
    (hs : s.Bounded n Bad) (hc : s.calls[i]? = some (x, c)) (hheld : c.held = true)
    (hrel : releases m c.todo = true) {actions : List (PoolAction ι κ ο)} {us : List Unit}
    (hrun : Machine.run (Pool.step S) s actions = some (t, us))
    (hmany : m ≤ actions.countP (PoolAction.isStepOf i)) :
    ∃ u, Machine.Visits (Pool.step S) s actions u ∧ u.Free := by
  induction actions generalizing s c m us with
  | nil =>
      obtain rfl : m = 0 := Nat.le_zero.mp hmany
      cases hrel
  | cons a rest ih =>
      obtain ⟨middle, e, tail, hstep, hrest, -⟩ := Machine.run_cons_eq_some.mp hrun
      rw [List.countP_cons] at hmany
      cases hown : a.isStepOf i with
      | false =>
          rw [hown, if_neg (by decide), Nat.add_zero] at hmany
          obtain ⟨u, hvisit, hfree⟩ := ih (hs.step hS hstep)
            (calls_of_other_step hstep hown hc) hheld hrel hrest hmany
          exact ⟨u, .later hstep hvisit, hfree⟩
      | true =>
          rw [hown, if_pos rfl] at hmany
          cases m with
          | zero => cases hrel
          | succ m =>
              cases a with
              | start y => cases hown
              | outside o => cases hown
              | act j k =>
                  obtain rfl : j = i := eq_of_beq hown
                  obtain ⟨t', hact, heq⟩ := Option.map_eq_some_iff.mp hstep
                  cases heq
                  rcases hs.holder_step hc hheld hrel hact with hfree | ⟨c', hc', hheld', hrel'⟩
                  · exact ⟨_, .later hstep (.here _ _), hfree⟩
                  · obtain ⟨u, hvisit, hfree⟩ := ih (hs.act hact) hc' hheld' hrel' hrest
                      (Nat.le_of_succ_le_succ hmany)
                    exact ⟨u, .later hstep hvisit, hfree⟩

end Bounds

end Pool

end Ldd3
