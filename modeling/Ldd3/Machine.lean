import Mathlib.Data.List.Basic

/-!
# Partial machines and their runs

A machine is a partial step function: `step s a` is `none` when the action `a` is not
enabled in `s`, and otherwise gives the next state with the visible effect of the step.
`run` executes a list of actions. `Visits` and `Takes` name the states and the transitions
of a run. Read `holds_iff_guarded` last: it turns a property that one guarded step keeps
and one unguarded step breaks into an exact condition on whole runs.
-/

namespace Ldd3.Machine

variable {σ α ε τ : Type*} {step : σ → α → Option (σ × ε)}

/-- Execute the actions in order and collect their effects; the run fails at the first
action that is not enabled. -/
def run (step : σ → α → Option (σ × ε)) : σ → List α → Option (σ × List ε)
  | s, [] => some (s, [])
  | s, a :: rest => do
      let (middle, e) ← step s a
      let (final, es) ← run step middle rest
      pure (final, e :: es)

/-- `Visits step s as t` says that the run of `as` from `s` passes through `t`. -/
inductive Visits (step : σ → α → Option (σ × ε)) : σ → List α → σ → Prop where
  | here (s actions) : Visits step s actions s
  | later {s middle t a e rest} :
      step s a = some (middle, e) → Visits step middle rest t → Visits step s (a :: rest) t

/-- `Takes step s as t a e t'` says that the run of `as` from `s` executes the action `a` in
the state `t`, with effect `e` and next state `t'`. -/
inductive Takes (step : σ → α → Option (σ × ε)) : σ → List α → σ → α → ε → σ → Prop where
  | here {s next a e} (rest) : step s a = some (next, e) → Takes step s (a :: rest) s a e next
  | later {s middle a e rest t b f t'} :
      step s a = some (middle, e) → Takes step middle rest t b f t' →
      Takes step s (a :: rest) t b f t'

/-- The effects and final state of a nonempty run come from its first step and the rest. -/
theorem run_cons_eq_some {s final : σ} {a : α} {rest : List α} {es : List ε} :
    run step s (a :: rest) = some (final, es) ↔
      ∃ middle e tail, step s a = some (middle, e) ∧
        run step middle rest = some (final, tail) ∧ es = e :: tail := by
  simp only [run, bind, Option.bind_eq_some_iff, pure, Option.some.injEq, Prod.exists,
    Prod.mk.injEq]
  constructor
  · rintro ⟨middle, e, hstep, final', tail, hrest, rfl, rfl⟩
    exact ⟨middle, e, tail, hstep, hrest, rfl⟩
  · rintro ⟨middle, e, tail, hstep, hrest, rfl⟩
    exact ⟨middle, e, hstep, final, tail, hrest, rfl, rfl⟩

/-- A run after another one. -/
theorem run_append {s middle : σ} {actions rest : List α} {es : List ε}
    (h : run step s actions = some (middle, es)) :
    run step s (actions ++ rest) = (run step middle rest).map fun r => (r.1, es ++ r.2) := by
  induction actions generalizing s es with
  | nil =>
      cases h
      simp
  | cons a actions ih =>
      obtain ⟨next, e, tail, hfirst, hrest, rfl⟩ := run_cons_eq_some.mp h
      simp only [List.cons_append, run, hfirst, ih hrest, bind, Option.bind_some]
      cases run step middle rest <;> rfl

/-- A completed run visits its final state. -/
theorem visits_of_run {s final : σ} {actions : List α} {es : List ε}
    (h : run step s actions = some (final, es)) : Visits step s actions final := by
  induction actions generalizing s es with
  | nil =>
      cases h
      exact .here _ _
  | cons a rest ih =>
      obtain ⟨middle, e, tail, hstep, hrest, rfl⟩ := run_cons_eq_some.mp h
      exact .later hstep (ih hrest)

/-- A transition of a run starts in a visited state. -/
theorem Takes.source {s t t' : σ} {actions : List α} {a : α} {e : ε}
    (h : Takes step s actions t a e t') : Visits step s actions t := by
  induction h with
  | here rest _ => exact .here _ _
  | later hstep _ ih => exact .later hstep ih

/-- A transition of a run is a step of the machine. -/
theorem Takes.step_eq {s t t' : σ} {actions : List α} {a : α} {e : ε}
    (h : Takes step s actions t a e t') : step t a = some (t', e) := by
  induction h with
  | here rest hstep => exact hstep
  | later _ _ ih => exact ih

/-- A transition of a run ends in a visited state. -/
theorem Takes.target {s t t' : σ} {actions : List α} {a : α} {e : ε}
    (h : Takes step s actions t a e t') : Visits step s actions t' := by
  induction h with
  | here rest hstep => exact .later hstep (.here _ _)
  | later hstep _ ih => exact .later hstep ih

/-- A transition of a run executes one of its actions. -/
theorem Takes.action_mem {s t t' : σ} {actions : List α} {a : α} {e : ε}
    (h : Takes step s actions t a e t') : a ∈ actions := by
  induction h with
  | here rest _ => exact List.mem_cons_self
  | later _ _ ih => exact List.mem_cons_of_mem _ ih

/-- The empty run takes no transition. -/
theorem forall_takes_nil {G : σ → α → ε → σ → Prop} {s : σ} :
    ∀ t a e t', Takes step s [] t a e t' → G t a e t' := by
  intro t a e t' htake
  cases htake

/-- The transitions of a run are its first step and the transitions of the rest. -/
theorem forall_takes_cons {G : σ → α → ε → σ → Prop} {s middle : σ} {b : α} {f : ε}
    {rest : List α} (hstep : step s b = some (middle, f)) (hhere : G s b f middle)
    (hrest : ∀ t a e t', Takes step middle rest t a e t' → G t a e t') :
    ∀ t a e t', Takes step s (b :: rest) t a e t' → G t a e t' := by
  intro t a e t' htake
  cases htake with
  | here _ hfirst =>
      cases hstep.symm.trans hfirst
      exact hhere
  | later hfirst htake =>
      cases hstep.symm.trans hfirst
      exact hrest t a e t' htake

/-- The empty run visits the state it starts from. -/
theorem forall_visits_nil {P : σ → Prop} {s : σ} (hhere : P s) :
    ∀ t, Visits step s [] t → P t := by
  intro t hvisit
  cases hvisit
  exact hhere

/-- The states of a run are the one it starts from and those of the rest. -/
theorem forall_visits_cons {P : σ → Prop} {s middle : σ} {b : α} {f : ε} {rest : List α}
    (hstep : step s b = some (middle, f)) (hhere : P s)
    (hrest : ∀ t, Visits step middle rest t → P t) :
    ∀ t, Visits step s (b :: rest) t → P t := by
  intro t hvisit
  cases hvisit with
  | here => exact hhere
  | later hfirst hvisit =>
      cases hstep.symm.trans hfirst
      exact hrest t hvisit

/-- The test whether all steps of a run meet a guard that can be computed. -/
def admits (step : σ → α → Option (σ × ε)) (G : σ → α → Bool) : σ → List α → Bool
  | _, [] => true
  | s, a :: rest => G s a && (step s a).all fun r => admits step G r.1 rest

/-- A run that passes the test meets the guard. -/
theorem guard_of_admits {G : σ → α → Bool} {s : σ} {actions : List α}
    (h : admits step G s actions = true) :
    ∀ t a e t', Takes step s actions t a e t' → G t a = true := by
  intro t a e t' htake
  induction htake with
  | here rest hstep => exact (Bool.and_eq_true_iff.mp h).1
  | later hstep _ ih =>
      have hrest := (Bool.and_eq_true_iff.mp h).2
      rw [hstep] at hrest
      exact ih hrest

/-- The test whether all states of a run have a property that can be computed. -/
def everywhere (step : σ → α → Option (σ × ε)) (p : σ → Bool) : σ → List α → Bool
  | s, [] => p s
  | s, a :: rest => p s && (step s a).all fun r => everywhere step p r.1 rest

/-- A run that passes the test has the property in all states. -/
theorem visits_of_everywhere {p : σ → Bool} {s : σ} {actions : List α}
    (h : everywhere step p s actions = true) : ∀ t, Visits step s actions t → p t = true := by
  intro t hvisit
  induction hvisit with
  | here s actions =>
      cases actions with
      | nil => exact h
      | cons a rest => exact (Bool.and_eq_true_iff.mp h).1
  | later hstep _ ih =>
      have hrest := (Bool.and_eq_true_iff.mp h).2
      rw [hstep] at hrest
      exact ih hrest

/-- What every step whose action is admitted by the guard keeps, holds in every state of a
run all of whose transitions meet the guard. -/
theorem Visits.invariant_of_guard {I : σ → Prop} {G : σ → α → ε → σ → Prop}
    (hkeep : ∀ t a e t', I t → G t a e t' → step t a = some (t', e) → I t')
    {s t : σ} {actions : List α} (hs : I s)
    (hguard : ∀ t a e t', Takes step s actions t a e t' → G t a e t')
    (h : Visits step s actions t) : I t := by
  induction h with
  | here => exact hs
  | @later s middle t a e rest hstep _ ih =>
      have hfirst := hguard s a e middle (.here rest hstep)
      exact ih (hkeep s a e middle hs hfirst hstep)
        (fun t b f t' htake => hguard t b f t' (.later hstep htake))

/-- What every step keeps holds in every state of a run. -/
theorem Visits.invariant {I : σ → Prop}
    (hkeep : ∀ t a e t', I t → step t a = some (t', e) → I t')
    {s t : σ} {actions : List α} (hs : I s) (h : Visits step s actions t) : I t :=
  h.invariant_of_guard (G := fun _ _ _ _ => True)
    (fun t a e t' ht _ hstep => hkeep t a e t' ht hstep) hs (fun _ _ _ _ _ => trivial)

/-- The exact condition on a run, for runs whose transitions are all in the scope `S`. Let `I` be
kept by every step that meets the guard `G` and imply the state property `P` and the step
property `Q`, and let a step from `I` that misses the guard lack `Q` or end outside `P`. Then a
run has `P` in every state and `Q` at every step exactly when all its steps meet the guard. -/
theorem holds_iff_guarded {I P : σ → Prop} {G : σ → α → Prop} {Q S : σ → α → ε → σ → Prop}
    (hkeep : ∀ t a e t', I t → S t a e t' → G t a → step t a = some (t', e) → I t')
    (hstate : ∀ t, I t → P t)
    (htrans : ∀ t a e t', I t → S t a e t' → G t a → step t a = some (t', e) → Q t a e t')
    (hbreak : ∀ t a e t', I t → S t a e t' → step t a = some (t', e) → P t' → Q t a e t' → G t a)
    {s : σ} (hs : I s) {actions : List α}
    (hscope : ∀ t a e t', Takes step s actions t a e t' → S t a e t') :
    ((∀ t, Visits step s actions t → P t) ∧
        (∀ t a e t', Takes step s actions t a e t' → Q t a e t')) ↔
      ∀ t a e t', Takes step s actions t a e t' → G t a := by
  constructor
  · rintro ⟨hP, hQ⟩
    -- the steps before the first one that misses the guard keep `I`, so that one breaks `P` or `Q`
    induction actions generalizing s with
    | nil =>
        intro t a e t' htake
        cases htake
    | cons b rest ih =>
        intro t a e t' htake
        have hfirst : ∀ middle f, step s b = some (middle, f) → G s b := by
          intro middle f hstep
          exact hbreak s b f middle hs (hscope _ _ _ _ (.here rest hstep)) hstep
            (hP middle (.later hstep (.here _ _))) (hQ _ _ _ _ (.here rest hstep))
        cases htake with
        | here _ hstep => exact hfirst _ _ hstep
        | later hstep hrest =>
            have hI := hkeep _ _ _ _ hs (hscope _ _ _ _ (.here rest hstep)) (hfirst _ _ hstep) hstep
            exact ih hI (fun t a e t' htake => hscope t a e t' (.later hstep htake))
              (fun t ht => hP t (.later hstep ht))
              (fun t a e t' htake => hQ t a e t' (.later hstep htake)) t a e t' hrest
  · intro hG
    have hI : ∀ t, Visits step s actions t → I t := fun t ht =>
      ht.invariant_of_guard (G := fun t a e t' => S t a e t' ∧ G t a)
        (fun t a e t' ht hg hstep => hkeep t a e t' ht hg.1 hg.2 hstep) hs
        (fun t a e t' htake => ⟨hscope t a e t' htake, hG t a e t' htake⟩)
    exact ⟨fun t ht => hstate t (hI t ht),
      fun t a e t' htake => htrans t a e t' (hI t htake.source) (hscope t a e t' htake)
        (hG t a e t' htake) htake.step_eq⟩

/-- The exact condition on a run for a property of states alone. -/
theorem visits_iff_guarded {I P : σ → Prop} {G : σ → α → Prop} {S : σ → α → ε → σ → Prop}
    (hkeep : ∀ t a e t', I t → S t a e t' → G t a → step t a = some (t', e) → I t')
    (hstate : ∀ t, I t → P t)
    (hbreak : ∀ t a e t', I t → S t a e t' → step t a = some (t', e) → P t' → G t a)
    {s : σ} (hs : I s) {actions : List α}
    (hscope : ∀ t a e t', Takes step s actions t a e t' → S t a e t') :
    (∀ t, Visits step s actions t → P t) ↔
      ∀ t a e t', Takes step s actions t a e t' → G t a := by
  have hrule := holds_iff_guarded (Q := fun _ _ _ _ => True) hkeep hstate
    (fun _ _ _ _ _ _ _ _ => trivial)
    (fun t a e t' ht hS hstep hP _ => hbreak t a e t' ht hS hstep hP) hs hscope
  simpa using hrule

/-- The exact condition on a run for a property of transitions alone. -/
theorem takes_iff_guarded {I : σ → Prop} {G : σ → α → Prop} {Q S : σ → α → ε → σ → Prop}
    (hkeep : ∀ t a e t', I t → S t a e t' → G t a → step t a = some (t', e) → I t')
    (htrans : ∀ t a e t', I t → S t a e t' → G t a → step t a = some (t', e) → Q t a e t')
    (hbreak : ∀ t a e t', I t → S t a e t' → step t a = some (t', e) → Q t a e t' → G t a)
    {s : σ} (hs : I s) {actions : List α}
    (hscope : ∀ t a e t', Takes step s actions t a e t' → S t a e t') :
    (∀ t a e t', Takes step s actions t a e t' → Q t a e t') ↔
      ∀ t a e t', Takes step s actions t a e t' → G t a := by
  have hrule := holds_iff_guarded (P := fun _ => True) hkeep (fun _ _ => trivial) htrans
    (fun t a e t' ht hS hstep _ hQ => hbreak t a e t' ht hS hstep hQ) hs hscope
  simpa using hrule

/-- A rank that no step raises and every step of a counted kind lowers bounds the number of counted
steps of a run whose transitions are all in the scope `S`. -/
theorem count_le_of_rank {I : σ → Prop} {S : σ → α → ε → σ → Prop} (rank : σ → Nat) (p : α → Bool)
    (hkeep : ∀ t a e t', I t → S t a e t' → step t a = some (t', e) →
      I t' ∧ rank t' + (if p a then 1 else 0) ≤ rank t)
    {s final : σ} {actions : List α} {es : List ε} (hs : I s)
    (hscope : ∀ t a e t', Takes step s actions t a e t' → S t a e t')
    (hrun : run step s actions = some (final, es)) :
    actions.countP p + rank final ≤ rank s := by
  induction actions generalizing s es with
  | nil =>
      cases hrun
      simp
  | cons a rest ih =>
      obtain ⟨middle, e, tail, hfirst, hrest, rfl⟩ := run_cons_eq_some.mp hrun
      obtain ⟨hI, hrank⟩ := hkeep s a e middle hs (hscope _ _ _ _ (.here rest hfirst)) hfirst
      have htail := ih hI (fun t b f t' htake => hscope t b f t' (.later hfirst htake)) hrest
      rw [List.countP_cons]
      omega

/-- A machine that can take every action of a list until it is at a goal, and lowers its rank with
each, gets to a goal on every long enough list. -/
theorem reaches_of_rank {I Goal : σ → Prop} {A : α → Prop} (rank : σ → Nat)
    (hprogress : ∀ t a, I t → ¬ Goal t → A a →
      ∃ t' e, step t a = some (t', e) ∧ I t' ∧ rank t' < rank t)
    {s : σ} {actions : List α} (hs : I s) (hactions : ∀ a ∈ actions, A a)
    (hlong : rank s < actions.length) : ∃ t, Visits step s actions t ∧ Goal t := by
  induction actions generalizing s with
  | nil => exact absurd hlong (Nat.not_lt_zero _)
  | cons a rest ih =>
      by_cases hgoal : Goal s
      · exact ⟨s, .here _ _, hgoal⟩
      · obtain ⟨middle, e, hstep, hI, hrank⟩ :=
          hprogress s a hs hgoal (hactions a List.mem_cons_self)
        rw [List.length_cons] at hlong
        obtain ⟨t, hvisits, ht⟩ := ih hI (fun b hb => hactions b (List.mem_cons_of_mem _ hb))
          (by omega)
        exact ⟨t, .later hstep hvisits, ht⟩

/-- The effects of a completed run are those of its transitions. -/
theorem mem_effects_iff {s final : σ} {actions : List α} {es : List ε}
    (hrun : run step s actions = some (final, es)) (e : ε) :
    e ∈ es ↔ ∃ t a t', Takes step s actions t a e t' := by
  induction actions generalizing s es with
  | nil =>
      cases hrun
      constructor
      · intro hmem
        cases hmem
      · rintro ⟨t, a, t', htake⟩
        cases htake
  | cons b rest ih =>
      obtain ⟨middle, f, tail, hfirst, hrest, rfl⟩ := run_cons_eq_some.mp hrun
      rw [List.mem_cons, ih hrest]
      constructor
      · rintro (rfl | ⟨t, a, t', htake⟩)
        · exact ⟨s, b, middle, .here rest hfirst⟩
        · exact ⟨t, a, t', .later hfirst htake⟩
      · rintro ⟨t, a, t', htake⟩
        cases htake with
        | here _ hstep =>
            cases hfirst.symm.trans hstep
            exact .inl rfl
        | later hstep htake =>
            cases hfirst.symm.trans hstep
            exact .inr ⟨t, a, t', htake⟩

/-- A machine that is the image of another, step by step, has the images of its runs. -/
theorem run_map {σ' α' ε' : Type*} {step' : σ' → α' → Option (σ' × ε')} {f : σ → σ'} {g : α → α'}
    {h : ε → ε'}
    (hstep : ∀ s a, step' (f s) (g a) = (step s a).map fun r => (f r.1, h r.2))
    (s : σ) (actions : List α) :
    run step' (f s) (actions.map g) =
      (run step s actions).map fun r => (f r.1, r.2.map h) := by
  induction actions generalizing s with
  | nil => rfl
  | cons a rest ih =>
      simp only [List.map_cons, run, hstep]
      cases step s a with
      | none => rfl
      | some r =>
          simp only [Option.map_some, bind, Option.bind_some, ih]
          cases run step r.1 rest <;> rfl

/-- Trace refinement. If every step from related states is matched by the specification
`spec`, which reads the step's effect, then the specification accepts the effects of every
run and ends related to its final state. -/
theorem run_simulates {R : σ → τ → Prop} {spec : τ → ε → Option τ} {s final : σ} {q : τ}
    {actions : List α} {es : List ε}
    (hstep : ∀ t a e t' q, Takes step s actions t a e t' → R t q →
      ∃ q', spec q e = some q' ∧ R t' q')
    (hR : R s q) (hrun : run step s actions = some (final, es)) :
    ∃ q', es.foldlM spec q = some q' ∧ R final q' := by
  induction actions generalizing s q es with
  | nil =>
      cases hrun
      exact ⟨q, rfl, hR⟩
  | cons a rest ih =>
      obtain ⟨middle, e, tail, hfirst, hrest, rfl⟩ := run_cons_eq_some.mp hrun
      obtain ⟨q₁, hspec, hR₁⟩ := hstep s a e middle q (.here rest hfirst) hR
      obtain ⟨q₂, hfold, hR₂⟩ := ih
        (fun t b f t' q htake => hstep t b f t' q (.later hfirst htake)) hR₁ hrest
      exact ⟨q₂, by simp [List.foldlM_cons, hspec, hfold], hR₂⟩

/-- A transition after a completed run. -/
theorem takes_of_run {s middle t : σ} {actions : List α} {a : α} {es : List ε} {e : ε}
    (hrun : run step s actions = some (middle, es)) (hstep : step middle a = some (t, e)) :
    Takes step s (actions ++ [a]) middle a e t := by
  induction actions generalizing s es with
  | nil =>
      cases hrun
      exact .here [] hstep
  | cons b rest ih =>
      obtain ⟨next, f, tail, hfirst, hrest, rfl⟩ := run_cons_eq_some.mp hrun
      exact .later hfirst (ih hrest)

/-- A transition after a completed run, found by evaluation: `f` is what is observed of the state it
starts from. -/
theorem takes_of_observed {υ : Type*} {f : σ → υ} {s : σ} {actions : List α} {a : α} {v : υ} {e : ε}
    (h : ((run step s actions).bind fun r => (step r.1 a).map fun q => (f r.1, q.2)) =
      some (v, e)) :
    ∃ t t', Takes step s (actions ++ [a]) t a e t' ∧ f t = v := by
  obtain ⟨⟨t, es⟩, hrun, hmap⟩ := Option.bind_eq_some_iff.mp h
  obtain ⟨⟨t', e'⟩, hstep, heq⟩ := Option.map_eq_some_iff.mp hmap
  cases heq
  exact ⟨t, t', takes_of_run hrun hstep, rfl⟩

/-- The machine that carries a ghost along, which no step reads. After a step, `g` finds the
new ghost from the old one, the state before, the action, the effect and the state after. -/
def ghosted {γ : Type*} (g : γ → σ → α → ε → σ → γ) (step : σ → α → Option (σ × ε))
    (s : σ × γ) (a : α) : Option ((σ × γ) × ε) :=
  (step s.1 a).map fun r => ((r.1, g s.2 s.1 a r.2 r.1), r.2)

/-- A step with a ghost is a step of the machine and an update of the ghost. -/
theorem ghosted_eq_some {γ : Type*} {g : γ → σ → α → ε → σ → γ} {s t : σ × γ} {a : α} {e : ε}
    (h : ghosted g step s a = some (t, e)) :
    step s.1 a = some (t.1, e) ∧ t.2 = g s.2 s.1 a e t.1 := by
  obtain ⟨r, hr, heq⟩ := Option.map_eq_some_iff.mp h
  cases heq
  exact ⟨hr, rfl⟩

/-- The machine that remembers the effects of its steps. -/
def recorded (step : σ → α → Option (σ × ε)) (s : σ × List ε) (a : α) :
    Option ((σ × List ε) × ε) :=
  (step s.1 a).map fun r => ((r.1, s.2 ++ [r.2]), r.2)

/-- A step of the machine that remembers is a step of the machine, and its effect is remembered. -/
theorem recorded_eq_some {s t : σ × List ε} {a : α} {e : ε}
    (h : recorded step s a = some (t, e)) : step s.1 a = some (t.1, e) ∧ t.2 = s.2 ++ [e] :=
  ghosted_eq_some (g := fun history _ _ e _ => history ++ [e]) h

/-- An invariant that speaks of the history, the actions executed so far with their effects: what
holds at the start and is kept by every transition of the run holds at its end. -/
theorem run_history {R : σ → List (α × ε) → Prop} {s final : σ} {history : List (α × ε)}
    {actions : List α} {es : List ε}
    (hstep : ∀ t a e t' h, Takes step s actions t a e t' → R t h → R t' (h ++ [(a, e)]))
    (hR : R s history) (hrun : run step s actions = some (final, es)) :
    R final (history ++ actions.zip es) := by
  induction actions generalizing s es history with
  | nil =>
      cases hrun
      simpa using hR
  | cons a rest ih =>
      obtain ⟨middle, e, tail, hfirst, hrest, rfl⟩ := run_cons_eq_some.mp hrun
      have hnext := hstep s a e middle history (.here rest hfirst) hR
      have hfinal := ih (fun t b f t' h htake => hstep t b f t' h (.later hfirst htake)) hnext hrest
      simpa using hfinal

/-- A run has one effect for each action. -/
theorem run_length {s final : σ} {actions : List α} {es : List ε}
    (hrun : run step s actions = some (final, es)) : es.length = actions.length := by
  induction actions generalizing s es with
  | nil =>
      cases hrun
      rfl
  | cons a rest ih =>
      obtain ⟨middle, e, tail, -, hrest, rfl⟩ := run_cons_eq_some.mp hrun
      rw [List.length_cons, List.length_cons, ih hrest]

end Ldd3.Machine
