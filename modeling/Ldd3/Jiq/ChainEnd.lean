import Mathlib.Algebra.Ring.Int.Defs
import Ldd3.Jiq.Accounting

/-!
# The chains of jiq end

A work or a tasklet of jiq schedules itself again as long as `jiq_print` says so. Every line makes
`len` grow, whatever it is that `len` counts, and `jiq_print` says no once `len` is past `LIMIT`.
`Account.rank` is the number of steps that are left at most, and `jiq_chain_ends` puts it together:
in any run with one show call the chain takes a bounded number of steps and can always go on to a
call that returns 0, and `len` stays in the range of an `int`.
-/

namespace Ldd3.Jiq

/-- The buffer of a show call is one that `seq_read` allocates, and the lines are not empty. -/
def Action.Fits : Action → Prop
  | start _ _ size => 4096 ≤ size ∧ size ≤ 2 ^ 29
  | call _ env | callback _ env => 0 < env.n
  | run _ | signal _ => True

/-- A buffer that `seq_read` allocates. -/
structure SeqFile.Sized (m : SeqFile) : Prop where
  count_le : m.count ≤ m.size
  size_ge : 4096 ≤ m.size
  size_le : m.size ≤ 2 ^ 29

/-- A print keeps the buffer as it should be, and prints something. -/
theorem SeqFile.Sized.print {m : SeqFile} {n : Nat} (h : m.Sized) (hn : 0 < n) :
    (m.print n).Sized ∧ 0 < (m.print n).count := by
  obtain ⟨hcount, hge, hle⟩ := h
  simp only [SeqFile.print]
  split
  · rename_i hroom
    exact ⟨⟨Nat.le_of_lt hroom, hge, hle⟩, by omega⟩
  · exact ⟨⟨Nat.le_refl _, hge, hle⟩, by omega⟩

namespace Account

/-- Between the calls of `jiq_print`. -/
def Resting (len : BitVec 32) (file : SeqFile) : Prop :=
  file.Sized ∧ len.toNat ≤ 2 ^ 30 ∧ (len = 0 → file.count = 0)

/-- The sizes at each point of a call of `jiq_print`. -/
def Bounded : Account → Prop
  | ⟨.absent, _, _⟩ => True
  | ⟨.fresh, _, file⟩ => file.Sized ∧ file.count = 0
  | ⟨.printing (.readM l), len, file⟩ | ⟨.printing (.test l _ _), len, file⟩ =>
      l = len ∧ Resting len file
  | ⟨.printing (.title _ _), len, file⟩ => len = 0 ∧ Resting len file
  | ⟨.printing (.line _ _ l), len, file⟩ => file.Sized ∧ len.toNat ≤ 3968 ∧ l.toNat ≤ 42
  | ⟨.printing (.store _ l), len, file⟩ =>
      file.Sized ∧ len.toNat ≤ 3968 ∧ 0 < l.toNat ∧ l.toNat ≤ 42 + 2 ^ 29
  | ⟨_, len, file⟩ => Resting len file

variable {acc acc' : Account} {env : Env} {c : Nat} {k : Kind} {a : Action} {len : BitVec 32}

/-- The first call has the titles in `l`. -/
theorem bounded_title {file : SeqFile} {m : Option Nat} {j : BitVec 64} (h : Resting 0 file) :
    Bounded ⟨.printing (.line m j (BitVec.ofNat 32 (file.print titleLength).count)), 0,
      file.print titleLength⟩ := by
  obtain ⟨hsized, -, hzero⟩ := h
  have hsize := hsized.size_ge
  have hcount : (file.print titleLength).count = titleLength := by
    simp only [SeqFile.print, hzero rfl, Nat.zero_add]
    exact if_pos (Nat.lt_of_lt_of_le (by decide) hsize)
  refine ⟨(hsized.print (by decide)).1, Nat.zero_le _, ?_⟩
  rw [hcount]
  decide

/-- A line adds something to `l`, and no more than the buffer holds. -/
theorem bounded_line {file : SeqFile} {n : Nat} {m : Option Nat} {j : BitVec 64} {l : BitVec 32}
    (h : Bounded ⟨.printing (.line m j l), len, file⟩) (hn : 0 < n) :
    Bounded ⟨.printing (.store j (l + BitVec.ofNat 32 (file.print n).count)), len,
      file.print n⟩ := by
  obtain ⟨hsized, hlen, hl⟩ := h
  obtain ⟨hsized', hpos⟩ := hsized.print hn
  have hcount := hsized'.count_le
  have hsize := hsized'.size_le
  have hadd : (l + BitVec.ofNat 32 (file.print n).count).toNat =
      l.toNat + (file.print n).count := by
    rw [BitVec.toNat_add, BitVec.toNat_ofNat]
    omega
  exact ⟨hsized', hlen, by omega, by omega⟩

/-- The assignment to `len` does not overflow. -/
theorem bounded_store {file : SeqFile} {j : BitVec 64} {l : BitVec 32}
    (h : Bounded ⟨.printing (.store j l), len, file⟩) :
    (len + l).toNat = len.toNat + l.toNat := by
  obtain ⟨-, hlen, -, hl⟩ := h
  rw [BitVec.toNat_add]
  omega

/-- A step of `jiq_print` keeps the sizes. -/
theorem bounded_print (h : PrintMove env acc acc') (hn : 0 < env.n) (hacc : acc.Bounded) :
    acc'.Bounded := by
  cases h with
  | readLen => exact ⟨rfl, hacc⟩
  | readM => exact hacc
  | stops => exact hacc.2
  | first => exact ⟨hacc.1.symm, hacc.2⟩
  | next hlimit =>
      obtain ⟨rfl, hsized, -⟩ := hacc
      rw [limit_lt_iff] at hlimit
      exact ⟨hsized, by omega, Nat.zero_le _⟩
  | title =>
      obtain ⟨rfl, hresting⟩ := hacc
      exact bounded_title hresting
  | line => exact bounded_line hacc hn
  | store =>
      have hadd := bounded_store hacc
      obtain ⟨hsized, hlen, hpos, hl⟩ := hacc
      refine ⟨hsized, by omega, fun hzero => ?_⟩
      rw [hzero] at hadd
      have hnone : (0 : BitVec 32).toNat = 0 := rfl
      omega
  | setEnd => exact hacc
  | wake => exact hacc

/-- A step of the module keeps the sizes. -/
theorem bounded_step (h : AccountStep c k a acc acc') (ha : a.Fits) (hacc : acc.Bounded) :
    acc'.Bounded := by
  cases h with
  | stays => exact hacc
  | starts => exact ⟨⟨Nat.zero_le _, ha.1, ha.2⟩, rfl⟩
  | resets => exact ⟨hacc.1, Nat.zero_le _, fun _ => hacc.2⟩
  | calls => exact hacc
  | @prints a env acc acc' henv hmove =>
      refine bounded_print hmove ?_ hacc
      cases a with
      | call _ _ | callback _ _ =>
          cases henv
          exact ha
      | start _ _ _ | run _ | signal _ => cases henv
  | again => exact hacc
  | ends => exact hacc
  | timed _ hstage hstage' =>
      rcases hstage with rfl | ⟨again, rfl⟩ <;> rcases hstage' with rfl | rfl <;> exact hacc

/-- The steps left of the call of `jiq_print` at hand. -/
def stageRank : Stage → Nat
  | .absent | .fresh | .printing (.ret true) => 10
  | .due => 9
  | .printing .readLen => 8
  | .printing (.readM _) => 7
  | .printing (.test _ _ _) => 6
  | .printing (.title _ _) => 5
  | .printing (.line _ _ _) => 4
  | .printing (.store _ _) | .printing .setEnd => 3
  | .printing .wake => 2
  | .printing (.ret false) => 1
  | .ended => 0

/-- The steps left of the chain, at most: ten for each byte that `len` is short of `LIMIT`. -/
def rank (acc : Account) : Nat :=
  10 * (3969 - if acc.stage.begun then acc.len.toNat else 0) + stageRank acc.stage

/-- Every step of `jiq_print` uses one up. -/
theorem rank_print (h : PrintMove env acc acc') (hacc : acc.Bounded) :
    acc'.rank + 1 ≤ acc.rank := by
  cases h with
  | store =>
      have hadd := bounded_store hacc
      obtain ⟨-, hlen, hpos, -⟩ := hacc
      simp only [rank, Stage.begun, stageRank, if_true, hadd]
      omega
  | readLen | readM | stops | first | next | title | line | setEnd | wake =>
      simp only [rank, Stage.begun, stageRank, if_true]
      omega

/-- A step of the module uses one up if it is one of the chain. -/
theorem rank_step (h : AccountStep c k a acc acc') (hk : k ≠ .timer) (hacc : acc.Bounded) :
    acc'.rank + (if a.chain then 1 else 0) ≤ acc.rank := by
  have hle : (if a.chain then 1 else 0) ≤ 1 := by
    split <;> omega
  cases h with
  | stays hchain => simp [hchain hk]
  | starts => exact Nat.le_refl _
  | resets => exact Nat.le_succ _
  | calls | again | ends =>
      simp only [rank, Stage.begun, stageRank, if_true]
      omega
  | prints _ hmove =>
      have hprint := rank_print hmove hacc
      omega
  | timed htimer => exact absurd htimer hk

/-- No account has a greater rank. -/
theorem rank_le (acc : Account) : acc.rank ≤ 39700 := by
  have hstage : stageRank acc.stage ≤ 10 := by
    cases acc.stage with
    | absent | fresh | due | ended => decide
    | printing pc =>
        cases pc with
        | ret again => cases again <;> decide
        | _ => simp [stageRank]
  unfold rank
  omega

/-- `len` stays small. -/
theorem Bounded.len_le (h : acc.Bounded) (hbegun : acc.stage.begun = true) :
    acc.len.toNat ≤ 2 ^ 30 := by
  obtain ⟨stage, len, file⟩ := acc
  cases stage with
  | absent | fresh => cases hbegun
  | due | ended => exact h.2.1
  | printing pc =>
      cases pc with
      | line _ _ _ | store _ _ => exact Nat.le_trans h.2.1 (by decide)
      | readM _ | test _ _ _ | title _ _ => exact h.2.2.1
      | readLen | setEnd | wake | ret _ => exact h.2.1

/-- `len` is never negative, and the assignment to it does not overflow. -/
theorem Bounded.in_range (h : acc.Bounded) (hbegun : acc.stage.begun = true) :
    0 ≤ acc.len.toInt ∧ ∀ j l, acc.stage = .printing (.store j l) →
      0 ≤ l.toInt ∧ acc.len.toInt + l.toInt < 2 ^ 31 := by
  have hlen := h.len_le hbegun
  have hint : acc.len.toInt = acc.len.toNat := BitVec.toInt_eq_toNat_of_lt (by omega)
  refine ⟨by omega, fun j l hstage => ?_⟩
  obtain ⟨stage, len, file⟩ := acc
  obtain rfl : stage = .printing (.store j l) := hstage
  obtain ⟨-, hsmall, -, hl⟩ := h
  have hint' : l.toInt = l.toNat := BitVec.toInt_eq_toNat_of_lt (by omega)
  rw [hint, hint']
  show (0 : Int) ≤ l.toNat ∧ (len.toNat : Int) + l.toNat < 2 ^ 31
  omega

end Account

namespace JiqState

/-- The callback of `k` is queued or runs. -/
def Alive (s : JiqState) (k : Kind) : Prop := s.pending k ≠ none ∨ s.running k ≠ none

/-- The callback of `k` is about to end with a call of `jiq_print` that has returned 0. -/
def Returns0 (s : JiqState) (c : Nat) (k : Kind) : Prop :=
  s.running k = some (c, .print (.ret false))

/-- The kernel runs the callback of `k`, or lets it go on. -/
def chainStep (delay : BitVec 64) (k : Kind) (s : JiqState) (env : Env) :
    Option (JiqState × Event) :=
  if (s.running k).isSome then s.step delay (.callback k env) else s.step delay (.run k)

variable {s t : JiqState} {e : Event} {env : Env} {c : Nat} {k : Kind} {delay : BitVec 64}
  {stage : Stage}

/-- A step of the chain is a step of the module. -/
theorem chain_step_eq_some (h : chainStep delay k s env = some (t, e)) :
    ∃ a, a.chain = true ∧ (a = .run k ∨ a = .callback k env) ∧ s.step delay a = some (t, e) := by
  unfold chainStep at h
  split at h
  · exact ⟨_, rfl, .inr rfl, h⟩
  · exact ⟨_, rfl, .inl rfl, h⟩

/-- The steps of a callback other than that of the timer. -/
theorem callback_step_eq {d : Nat} {pc : CallbackPc} (hk : k ≠ .timer)
    (hrunning : s.running k = some (d, pc)) :
    s.callbackStep k env = s.printAgain k d pc env := by
  cases k with
  | wq | wqDelayed | tasklet => simp [callbackStep, hrunning, jiqPrintWq, jiqPrintWqDelayed,
      jiqPrintTasklet]
  | timer => exact absurd rfl hk

/-- A callback inside `jiq_print` goes on with it. -/
theorem print_again_eq {pc : PrintPc} (hret : ∀ again, pc ≠ .ret again) :
    s.printAgain k c (.print pc) env = s.printStep k c pc env := by
  cases pc with
  | ret again => exact absurd rfl (hret again)
  | readLen | readM _ | test _ _ _ | title _ _ | line _ _ _ | store _ _ | setEnd | wake => rfl

/-- As long as no call has returned 0, a live chain goes on and stays alive. -/
theorem Solo.progress (h : s.Solo c k stage) (hk : k ≠ .timer) (halive : s.Alive k)
    (hgoal : ¬ s.Returns0 c k) (delay : BitVec 64) (env : Env) :
    ∃ t e, chainStep delay k s env = some (t, e) ∧ t.Alive k := by
  unfold chainStep
  cases hrunning : s.running k with
  | none =>
      cases hpending : s.pending k with
      | none => simp [Alive, hrunning, hpending] at halive
      | some d =>
          refine ⟨{ s with pending := Function.update s.pending k none }.proceed k d
            (.print .readLen), .quiet, ?_, .inr ?_⟩
          · simp [step, hpending, hrunning]
          · simp [JiqState.proceed]
  | some r =>
      obtain ⟨d, pc⟩ := r
      obtain ⟨-, rfl, -, call, hs⟩ := h.running hrunning
      obtain ⟨p, rfl⟩ := hs.hprint hk
      simp only [Option.isSome_some, if_true, step, callback_step_eq hk hrunning]
      by_cases hret : ∃ again, p = .ret again
      · obtain ⟨again, rfl⟩ := hret
        cases again with
        | true =>
            refine ⟨_, _, rfl, .inl ?_⟩
            simp [finish, schedule]
        | false => exact absurd hrunning hgoal
      · have hpc : ∀ again, p ≠ .ret again := fun again heq => hret ⟨again, heq⟩
        obtain ⟨u, pc', m, hprint⟩ := jiq_print_enabled (s := s) hpc hs.hfile env
        rw [print_again_eq hpc, printStep, hprint]
        refine ⟨_, _, rfl, .inr ?_⟩
        simp [JiqState.proceed]

/-- One show call is the only one, and its sizes are as they should be. -/
def Tame (s : JiqState) (c : Nat) (k : Kind) : Prop :=
  s.Solo c k (s.stage c k) ∧ (s.account c k).Bounded

/-- A step of the module keeps this, and uses up a step of the chain if it is one. -/
theorem Tame.step {a : Action} (h : s.Tame c k) (hk : k ≠ .timer) (ha : a.Sole c k)
    (hfits : a.Fits) (hstep : s.step delay a = some (t, e)) :
    t.Tame c k ∧ (t.account c k).rank + (if a.chain then 1 else 0) ≤ (s.account c k).rank := by
  obtain ⟨hsolo, hacc⟩ := account_step h.1 ha hstep
  exact ⟨⟨hsolo, Account.bounded_step hacc hfits h.2⟩, Account.rank_step hacc hk h.2⟩

/-- A live chain that has not ended takes another step, which uses one up. -/
theorem Tame.progress (h : s.Tame c k) (hk : k ≠ .timer) (halive : s.Alive k)
    (hgoal : ¬ s.Returns0 c k) (hn : 0 < env.n) (delay : BitVec 64) :
    ∃ t e, chainStep delay k s env = some (t, e) ∧ (t.Tame c k ∧ t.Alive k) ∧
      (t.account c k).rank < (s.account c k).rank := by
  obtain ⟨t, e, hchain, halive'⟩ := h.1.progress hk halive hgoal delay env
  obtain ⟨a, hchains, ha, hstep⟩ := chain_step_eq_some hchain
  have hsole : a.Sole c k ∧ a.Fits := by
    rcases ha with rfl | rfl
    · exact ⟨trivial, trivial⟩
    · exact ⟨trivial, hn⟩
  obtain ⟨htame, hrank⟩ := h.step hk hsole.1 hsole.2 hstep
  rw [if_pos hchains] at hrank
  exact ⟨t, e, hchain, ⟨htame, halive'⟩, hrank⟩

/-- The chains end. In a run with one show call of a file with a work or a tasklet, from a module in
which nothing is on the way, whatever the buffer and the lines, the steps of the chain are bounded.
From every state in which the callback is queued or runs, the callback alone gets to a call of
`jiq_print` that returns 0, for every sequence of lines. Once the show call has set `len`, it never
is negative, and no assignment to it overflows. -/
theorem jiq_chain_ends (delay : BitVec 64) {s : JiqState} (hquiet : s.Quiet) {c : Nat}
    (hnew : s.calls c = none) {k : Kind} (hk : k ≠ .timer) (actions : List Action)
    (hsole : ∀ a ∈ actions, a.Sole c k) (hlines : ∀ a ∈ actions, a.Fits) :
    (∀ final es, Machine.run (step delay) s actions = some (final, es) →
        actions.countP Action.chain ≤ 39700) ∧
      (∀ t, Machine.Visits (step delay) s actions t → t.Alive k →
        ∀ envs : List Env, (∀ env ∈ envs, 0 < env.n) → 39700 < envs.length →
          ∃ u, Machine.Visits (chainStep delay k) t envs u ∧ u.Returns0 c k) ∧
      ∀ t, Machine.Visits (step delay) s actions t → (t.stage c k).begun = true →
        0 ≤ t.data.len.toInt ∧ ∀ j l, t.stage c k = .printing (.store j l) →
          0 ≤ l.toInt ∧ t.data.len.toInt + l.toInt < 2 ^ 31 := by
  have hinv : ∀ t, Machine.Visits (step delay) s actions t → t.Tame c k := fun t ht =>
    account_of_visits (G := fun a _ => a.Fits) hquiet hnew (fun _ _ => trivial)
      (fun _ _ _ => Account.bounded_step)
      (fun t a e t' htake => ⟨hsole a htake.action_mem, hlines a htake.action_mem⟩) ht
  refine ⟨?_, ?_, ?_⟩
  · intro final es hrun
    have hcount := Machine.count_le_of_rank (I := fun t => t.Tame c k)
      (S := fun _ a _ _ => a.Sole c k ∧ a.Fits) (fun t => (t.account c k).rank) Action.chain
      (fun t a e t' h ha hstep => h.step hk ha.1 ha.2 hstep) (hinv s (.here _ _))
      (fun t a e t' htake => ⟨hsole a htake.action_mem, hlines a htake.action_mem⟩) hrun
    have hle := (s.account c k).rank_le
    omega
  · intro t ht halive envs henvs hlong
    refine Machine.reaches_of_rank (I := fun u => u.Tame c k ∧ u.Alive k)
      (A := fun env : Env => 0 < env.n) (fun u => (u.account c k).rank) ?_ ⟨hinv t ht, halive⟩
      henvs (Nat.lt_of_le_of_lt (Account.rank_le _) hlong)
    rintro u env ⟨htame, halive⟩ hgoal hn
    exact htame.progress hk halive hgoal hn delay
  · intro t ht hbegun
    exact (hinv t ht).2.in_range hbegun

/-- With lines of 46 bytes the chain of the work queue file ends, however far it has got. -/
theorem jiq_chain_ends_titles :
    ∃ final es, Machine.run (step 0) init titles = some (final, es) ∧ final.Alive .wq ∧
      titles.countP Action.chain ≤ 39700 ∧ 0 ≤ final.data.len.toInt ∧
      ∃ u, Machine.Visits (chainStep 0 .wq) final (List.replicate 39701 ⟨0, 46⟩) u ∧
        u.Returns0 0 .wq := by
  obtain ⟨⟨final, es⟩, hrun, hfinal⟩ : ∃ r, Machine.run (step 0) init titles = some r ∧
      ((r.1.running .wq).isSome && (r.1.stage 0 .wq).begun) = true :=
    (Option.any_eq_true _ _).mp (by decide)
  rw [Bool.and_eq_true, Option.isSome_iff_ne_none] at hfinal
  have hvisits := Machine.visits_of_run hrun
  obtain ⟨hcount, hends, hrange⟩ := jiq_chain_ends 0 quiet_init (c := 0) rfl (k := .wq) (by decide)
    titles (by simp [titles, Action.Sole]) (by simp [titles, Action.Fits])
  refine ⟨final, es, hrun, .inr hfinal.1, hcount final es hrun,
    (hrange final hvisits hfinal.2).1, ?_⟩
  refine hends final hvisits (.inr hfinal.1) _ (fun env henv => ?_) ?_
  · rw [List.eq_of_mem_replicate henv]
    exact Nat.succ_pos _
  · rw [List.length_replicate]
    exact Nat.lt_succ_self _

end JiqState

end Ldd3.Jiq
