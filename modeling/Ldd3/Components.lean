import Ldd3.Machine

/-!
# Systems of independent components

Any number of components of one kind that have nothing in common: a system is the list of its
components, and a step starts a new one or is a step of one of them. `forall_components` lifts an
invariant of the component machine to the states of the system, and `takes_act` says that a
transition of the system is one of a component.
-/

namespace Ldd3.Components

open Machine

variable {ι σ α ε : Type*}

/-- A step of the system. -/
inductive Action (ι α : Type*) where
  | start (x : ι)
  | act (i : Nat) (a : α)
  deriving DecidableEq, Repr

/-- The system of components that start as `new` says, if at all, and move by `step`. -/
def system (new : ι → Option σ) (step : σ → α → Option (σ × ε)) (s : List σ) :
    Action ι α → Option (List σ × Option ε)
  | .start x => some (s ++ (new x).toList, none)
  | .act i a => s[i]?.bind fun c => (step c a).map fun r => (s.set i r.1, some r.2)

/-- A guard on the steps of components, as a guard on those of the system. -/
def each (G : σ → α → Bool) (s : List σ) : Action ι α → Bool
  | .start _ => true
  | .act i a => s[i]?.all fun c => G c a

variable {new : ι → Option σ} {step : σ → α → Option (σ × ε)} {G : σ → α → Bool}
  {s t : List σ} {actions : List (Action ι α)}

/-- A step of a component in the system. -/
theorem system_act {i : Nat} {a : α} {e : Option ε}
    (h : system new step s (.act i a) = some (t, e)) :
    ∃ c c' f, s[i]? = some c ∧ step c a = some (c', f) ∧ t = s.set i c' ∧ e = some f := by
  obtain ⟨c, hc, hmap⟩ := Option.bind_eq_some_iff.mp h
  obtain ⟨⟨c', f⟩, hstep, heq⟩ := Option.map_eq_some_iff.mp hmap
  cases heq
  exact ⟨c, c', f, hc, hstep, rfl, rfl⟩

/-- What new components have and every guarded step of a component keeps, all components have in
every state of a guarded run of the system. -/
theorem forall_components {I : σ → Prop} (hnew : ∀ x c, new x = some c → I c)
    (hkeep : ∀ c a e c', I c → G c a = true → step c a = some (c', e) → I c')
    (hguard : ∀ s a e t, Takes (system new step) [] actions s a e t → each G s a = true)
    (h : Visits (system new step) [] actions s) : ∀ c ∈ s, I c := by
  refine h.invariant_of_guard (I := fun s => ∀ c ∈ s, I c) (G := fun s a _ _ => each G s a = true)
    ?_ (by simp) hguard
  intro s a e t hs hg hstep
  cases a with
  | start x =>
      cases hstep
      intro c hmem
      rcases List.mem_append.mp hmem with hold | hnewest
      · exact hs c hold
      · exact hnew x c (Option.mem_toList.mp hnewest)
  | act i a =>
      obtain ⟨c, c', f, hc, hmove, rfl, -⟩ := system_act hstep
      have hi := hs c (List.mem_of_getElem? hc)
      have hgc : G c a = true := by simpa [each, hc] using hg
      intro d hmem
      rcases List.mem_or_eq_of_mem_set hmem with hold | rfl
      · exact hs d hold
      · exact hkeep c a f d hi hgc hmove

/-- A transition of the system by a component is one of that component, which has the invariant and
meets the guard. -/
theorem takes_act {I : σ → Prop} (hnew : ∀ x c, new x = some c → I c)
    (hkeep : ∀ c a e c', I c → G c a = true → step c a = some (c', e) → I c')
    (hguard : ∀ s a e t, Takes (system new step) [] actions s a e t → each G s a = true)
    {i : Nat} {a : α} {e : Option ε} {c : σ}
    (h : Takes (system new step) [] actions s (.act i a) e t) (hc : s[i]? = some c) :
    I c ∧ G c a = true ∧ ∃ c' f, step c a = some (c', f) := by
  have hI := forall_components hnew hkeep hguard h.source c (List.mem_of_getElem? hc)
  have hg := hguard _ _ _ _ h
  obtain ⟨d, c', f, hd, hstep, -, -⟩ := system_act h.step_eq
  cases hc.symm.trans hd
  exact ⟨hI, by simpa [each, hc] using hg, c', f, hstep⟩

end Ldd3.Components
