import Ldd3.LockSystem

/-!
# Rules for calls under a lock

How the precondition of a program is found statement by statement. A call is either outside its
sections, where it knows its own data only (`Outside`), or inside one, where it also knows how its
data are related to the abstract state (`InSection`). There is one rule for each kind of statement
in each of the two places, and the rules are applied from the first statement on.
-/

namespace Ldd3

variable {σ χ τ γ κ α δ ε : Type*}

/-- The call holds the lock, it has executed `trace₀`, and `K` relates the abstract state to its
data. -/
def InSection (trace₀ : List (δ × ε)) (K : α → σ → Prop) : Assertion α δ ε σ :=
  fun held a trace d => held = true ∧ trace = trace₀ ∧ K a d

/-- The call does not hold the lock, it has executed `trace₀`, and its own data are `d`. -/
def Outside (S : Sharing σ χ γ κ) (trace₀ : List (δ × ε)) (d : σ) : Assertion α δ ε σ :=
  fun held _ trace c => held = false ∧ trace = trace₀ ∧ ∃ g, c = S.put g d

/-- The steps from outside leave `K` true. -/
def Framed (S : Sharing σ χ γ κ) (A : Abstraction γ α δ ε) (K : α → σ → Prop) : Prop :=
  ∀ a d a' g, A.base a' g → A.rely (a, S.get d) (a', g) → K a d → K a' (S.put g d)

variable {S : Sharing σ χ γ κ} {A : Abstraction γ α δ ε} {K L : α → σ → Prop}
  {P Q : Assertion α δ ε σ} {trace₀ : List (δ × ε)} {d : σ}

section Sections

/-- So does a fact that the data they change do not concern. -/
theorem Framed.and {T : σ → Prop} (hK : Framed S A K)
    (hT : ∀ a d a' g, A.rely (a, S.get d) (a', g) → T d → T (S.put g d)) :
    Framed S A fun a d => K a d ∧ T d :=
  fun a d a' g hbase hrely h => ⟨hK a d a' g hbase hrely h.1, hT a d a' g hrely h.2⟩

/-- A section goes on whatever happens outside. -/
theorem stable_section (hK : Framed S A K) : Stable S A (InSection trace₀ K) := by
  rintro held a trace d ⟨hheld, htrace, hd⟩ a' g hbase hrely
  exact ⟨hheld, htrace, hK a d a' g hbase (hrely hheld) hd⟩

/-- A section goes on where its assertion is enough. -/
theorem section_always (hK : Framed S A K) (hP : Entails (InSection trace₀ K) P) :
    Entails (InSection trace₀ K) (Always S A P) :=
  fun held a trace d hd a' g hbase hrely =>
    hP _ _ _ _ (stable_section hK held a trace d hd a' g hbase hrely)

/-- What holds in a section may be weakened. -/
theorem entails_section (hKL : ∀ a d, K a d → L a d) (hP : Entails (InSection trace₀ L) P) :
    Entails (InSection trace₀ K) P :=
  fun _ _ _ _ hd => hP _ _ _ _ ⟨hd.1, hd.2.1, hKL _ _ hd.2.2⟩

/-- A statement of a section that may execute actions of the abstract machine. -/
theorem section_commit {f : σ → χ → Option σ} (hK : Framed S A K)
    (hstep : ∀ a d k d', A.base a (S.get d) → K a d → f d (S.env (S.get d) k) = some d' →
      ∃ ws a', A.Commits a ws a' ∧ A.base a' (S.get d') ∧ P true a' (trace₀ ++ ws) d') :
    Entails (InSection trace₀ K) (After S A f P) := by
  intro held a trace d hd a' g hbase hrely k d' hf
  obtain ⟨rfl, rfl, hnow⟩ := stable_section hK held a trace d hd a' g hbase hrely
  have hbase' : A.base a' (S.get (S.put g d)) := by rwa [S.get_put]
  obtain ⟨ws, b, hrun, hb, hP⟩ := hstep a' _ k d' hbase' hnow hf
  exact ⟨ws, b, hrun, hb, fun h => absurd h (by decide), hP⟩

/-- A statement of a section. -/
theorem section_exec {f : σ → χ → Option σ} (hK : Framed S A K)
    (hstep : ∀ a d k d', A.base a (S.get d) → K a d → f d (S.env (S.get d) k) = some d' →
      L a d' ∧ A.base a (S.get d'))
    (hP : Entails (InSection trace₀ L) P) :
    Entails (InSection trace₀ K) (After S A f P) := by
  refine section_commit hK fun a d k d' hbase hd hf => ?_
  obtain ⟨hL, hbase'⟩ := hstep a d k d' hbase hd hf
  refine ⟨[], a, .nil a, hbase', hP _ _ _ _ ⟨rfl, List.append_nil _, hL⟩⟩

/-- A test in a section. -/
theorem section_test {T : σ → χ → Bool} (hK : Framed S A K)
    (hthen : ∀ x, Entails (InSection trace₀ fun a d => K a d ∧ T d x = true) P)
    (helse : ∀ x, Entails (InSection trace₀ fun a d => K a d ∧ T d x = false) Q) :
    Entails (InSection trace₀ K) (Tested S A T P Q) := by
  intro held a trace d hd a' g hbase hrely k
  obtain ⟨hheld, htrace, hd⟩ := stable_section hK held a trace d hd a' g hbase hrely
  split
  · rename_i htest
    exact hthen _ _ _ _ _ ⟨hheld, htrace, hd, htest⟩
  · rename_i htest
    exact helse _ _ _ _ _ ⟨hheld, htrace, hd, Bool.eq_false_iff.mpr htest⟩

/-- The end of a section, with what the call executes there. -/
theorem section_unlock (hK : Framed S A K)
    (hend : ∀ a d, A.base a (S.get d) → K a d →
      ∃ ws a', A.Commits a ws a' ∧ A.base a' (S.get d) ∧ A.inv a' (S.get d) ∧
        Entails (Outside S (trace₀ ++ ws) d) P) :
    Entails (InSection trace₀ K) (Unlocked S A P) := by
  intro held a trace d hd a' g hbase hrely
  obtain ⟨hheld, rfl, hnow⟩ := stable_section hK held a trace d hd a' g hbase hrely
  have hbase' : A.base a' (S.get (S.put g d)) := by rwa [S.get_put]
  obtain ⟨ws, b, hrun, hb, hinv, hP⟩ := hend a' _ hbase' hnow
  exact ⟨hheld, ws, b, hrun, hb, hinv, hP _ _ _ _ ⟨rfl, rfl, _, (S.put_get _).symm⟩⟩

end Sections

section Outside

/-- What the others do does not matter to a call outside its sections. -/
theorem outside_always (hP : Entails (Outside S trace₀ d) P) :
    Entails (Outside S trace₀ d) (Always S A P) := by
  rintro held a trace c ⟨hheld, htrace, g, rfl⟩ a' g' hbase _
  exact hP _ _ _ _ ⟨hheld, htrace, g', S.put_put g' g d⟩

/-- A statement outside that does not look at the shared data. -/
theorem outside_update {f : σ → σ} (hf : ∀ g, f (S.put g d) = S.put g (f d))
    (hP : Entails (Outside S trace₀ (f d)) P) :
    Entails (Outside S trace₀ d) (After S A (fun c _ => some (f c)) P) := by
  rintro held a trace c ⟨hheld, htrace, g, rfl⟩ a' g' hbase _ k c' heq
  cases heq
  have hown : f (S.put g' (S.put g d)) = S.put g' (f d) := by rw [S.put_put, hf]
  refine ⟨[], a', .nil a', ?_, fun _ => ⟨rfl, ?_⟩, hP _ _ _ _ ⟨hheld, ?_, g', hown⟩⟩
  · rw [hown, S.get_put]
    exact hbase
  · rw [hown, S.get_put, S.get_put]
  · rw [List.append_nil]
    exact htrace

/-- A test outside. -/
theorem outside_test {T : σ → χ → Bool}
    (hthen : ∀ g k, T (S.put g d) (S.env g k) = true → Entails (Outside S trace₀ d) P)
    (helse : ∀ g k, T (S.put g d) (S.env g k) = false → Entails (Outside S trace₀ d) Q) :
    Entails (Outside S trace₀ d) (Tested S A T P Q) := by
  rintro held a trace c ⟨hheld, htrace, g, rfl⟩ a' g' hbase _ k
  rw [S.put_put, S.get_put]
  split
  · rename_i htest
    exact hthen g' k htest _ _ _ _ ⟨hheld, htrace, g', rfl⟩
  · rename_i htest
    exact helse g' k (Bool.eq_false_iff.mpr htest) _ _ _ _ ⟨hheld, htrace, g', rfl⟩

/-- The start of a section. -/
theorem outside_lock (hK : ∀ a g, A.base a g → A.inv a g → K a (S.put g d))
    (hP : Entails (InSection trace₀ K) P) :
    Entails (Outside S trace₀ d) (Locked S A P) := by
  rintro held a trace c ⟨-, htrace, g, rfl⟩ a' g' hbase hinv
  rw [S.put_put]
  exact hP _ _ _ _ ⟨rfl, htrace, hK a' g' hbase hinv⟩

/-- A return outside, with what the call executes there. -/
theorem outside_return {f : σ → χ → σ} (ws : List (δ × ε))
    (hf : ∀ g k, S.get (f (S.put g d) (S.env g k)) = g)
    (hcommits : ∀ a g, A.base a g → A.Commits a ws a)
    (hP : ∀ a g k, P false a (trace₀ ++ ws) (f (S.put g d) (S.env g k))) :
    Entails (Outside S trace₀ d) (After S A (fun c x => some (f c x)) P) := by
  rintro held a trace c ⟨rfl, rfl, g, rfl⟩ a' g' hbase _ k c' heq
  rw [S.put_put, S.get_put] at heq
  cases heq
  refine ⟨ws, a', hcommits a' g' hbase, ?_, fun _ => ⟨rfl, ?_⟩, hP a' g' k⟩
  · rw [hf]
    exact hbase
  · rw [hf, S.put_put, S.get_put]

end Outside

section Statements

variable (S A) (G : Goals α δ ε σ)

end Statements

end Ldd3
