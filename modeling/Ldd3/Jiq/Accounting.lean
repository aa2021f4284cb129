import Mathlib.Algebra.Group.Nat.Defs
import Ldd3.Jiq.Chain

/-!
# The accounting of jiq_print

Each time it has printed a line, `jiq_print` adds `m->count` to `len`, which is the number of bytes
in the buffer and not the length of the line, and at the first line it adds the titles twice.
`jiq_accounting_iff` says what that means: `len` is the number of bytes printed, and the chain of
callbacks stops where it should, only until the first call of `jiq_print` returns.
-/

namespace Ldd3.Jiq

/-- The test of `jiq_print`, which a negative `len` passes as well. -/
theorem limit_lt_iff (len : BitVec 32) : limit < len.signExtend 64 ↔ 3968 < len.toNat := by
  have hlimit : limit.toNat = 3968 := by decide
  have hlt := len.isLt
  rw [BitVec.lt_def, hlimit, BitVec.toNat_signExtend, BitVec.toNat_setWidth]
  cases hmsb : len.msb with
  | false =>
      rw [if_neg Bool.false_ne_true]
      omega
  | true =>
      have hge := BitVec.toNat_ge_of_msb_true hmsb
      rw [if_pos rfl]
      omega

/-- A print that does not fill the buffer adds its length. -/
theorem SeqFile.print_count {m : SeqFile} {n : Nat} (h : (m.print n).count < (m.print n).size) :
    (m.print n).count = m.count + n := by
  simp only [print] at h ⊢
  split at h
  · rename_i hfits
    rw [if_pos hfits]
  · exact absurd h (Nat.lt_irrefl _)

/-- The show call has set `len`. -/
def Stage.begun : Stage → Bool
  | absent | fresh => false
  | due | printing _ | ended => true

/-- No call of `jiq_print` has printed something that it has still to add to `len`. -/
def Stage.settled : Stage → Bool
  | absent | fresh | printing (.line _ _ _) | printing (.store _ _) => false
  | due | printing _ | ended => true

namespace Account

/-- `len` is the number of bytes printed. -/
def Exact (acc : Account) : Prop :=
  acc.stage.settled = true → acc.len.toInt = acc.file.count

/-- A call of `jiq_print` stops the chain if and only if more than `LIMIT` bytes are printed. -/
def StopsRight (acc acc' : Account) : Prop :=
  ∀ l m j, acc.stage = .printing (.test l m j) → acc'.stage ≠ acc.stage →
    (acc'.stage = .printing .setEnd ↔ limit.toNat < acc.file.count)

/-- Nothing is printed, or `len` is ahead of the bytes printed, unless those do not fit an `int`. -/
def Ahead (len : BitVec 32) (count : Nat) : Prop :=
  len = 0 ∧ count = 0 ∨ 2 ^ 31 ≤ count ∨ 0 < count ∧ count < len.toNat

/-- What the calls of `jiq_print` keep, at each of their points. -/
def Counted : Account → Prop
  | ⟨.absent, _, _⟩ => True
  | ⟨.fresh, _, file⟩ => file.count = 0
  | ⟨.printing (.readM l), len, file⟩ | ⟨.printing (.test l _ _), len, file⟩ =>
      l = len ∧ Ahead len file.count
  | ⟨.printing (.title _ _), len, file⟩ => len = 0 ∧ Ahead len file.count
  | ⟨.printing (.line _ _ l), len, file⟩ =>
      0 < file.count ∧
        (2 ^ 31 ≤ file.count ∨ 0 < len.toNat + l.toNat ∧ len.toNat + l.toNat ≤ 4010)
  | ⟨.printing (.store _ l), len, file⟩ =>
      0 < file.count ∧
        (2 ^ 31 ≤ file.count ∨ file.count < len.toNat + l.toNat ∧ len.toNat + l.toNat < 2 ^ 32)
  | ⟨_, len, file⟩ => Ahead len file.count

variable {acc acc' : Account} {env : Env} {c : Nat} {k : Kind} {a : Action} {len : BitVec 32}

/-- `len` is exact only if nothing is printed. -/
theorem Ahead.exact_iff {count : Nat} (h : Ahead len count) : len.toInt = count ↔ count = 0 := by
  have hbound := len.isLt
  rw [BitVec.toInt_eq_toNat_cond]
  rcases h with ⟨rfl, rfl⟩ | hlarge | hlt
  · decide
  · split <;> omega
  · split <;> omega

/-- The titles are in `l` before the first line. -/
theorem counted_title {file : SeqFile} {m : Option Nat} {j : BitVec 64} (h : Ahead 0 file.count)
    (hfits : (file.print titleLength).count < (file.print titleLength).size) :
    Counted ⟨.printing (.line m j (BitVec.ofNat 32 (file.print titleLength).count)), 0,
      file.print titleLength⟩ := by
  simp only [Counted, SeqFile.print_count hfits]
  rcases h with ⟨-, hzero⟩ | hlarge | ⟨-, hlt⟩
  · rw [hzero]
    decide
  · omega
  · exact absurd hlt (Nat.not_lt_zero _)

/-- All that is in the buffer is added after a line. -/
theorem counted_line {file : SeqFile} {n : Nat} {m : Option Nat} {j : BitVec 64} {l : BitVec 32}
    (h : Counted ⟨.printing (.line m j l), len, file⟩)
    (hfits : (file.print n).count < (file.print n).size) :
    Counted ⟨.printing (.store j (l + BitVec.ofNat 32 (file.print n).count)), len,
      file.print n⟩ := by
  simp only [Counted, SeqFile.print_count hfits, BitVec.toNat_add, BitVec.toNat_ofNat] at h ⊢
  omega

/-- A step of `jiq_print` that does not fill the buffer. -/
theorem counted_print (h : PrintMove env acc acc') (hfits : acc'.file.count < acc'.file.size)
    (hacc : acc.Counted) : acc'.Counted := by
  cases h with
  | readLen => exact ⟨rfl, hacc⟩
  | readM => exact hacc
  | stops => exact hacc.2
  | first => exact ⟨hacc.1.symm, hacc.2⟩
  | @next len file l m j hlimit hne =>
      obtain ⟨rfl, hahead⟩ := hacc
      rw [limit_lt_iff] at hlimit
      show 0 < file.count ∧ (2 ^ 31 ≤ file.count ∨ 0 < l.toNat + 0 ∧ l.toNat + 0 ≤ 4010)
      rcases hahead with ⟨hzero, -⟩ | hlarge | ⟨hpos, hlt⟩
      · exact absurd hzero hne
      · omega
      · omega
  | title =>
      obtain ⟨rfl, hahead⟩ := hacc
      exact counted_title hahead hfits
  | line => exact counted_line hacc hfits
  | @store len file j l =>
      obtain ⟨hpos, hlarge | ⟨hlt, hsum⟩⟩ := hacc
      · exact .inr (.inl hlarge)
      · refine .inr (.inr ⟨hpos, ?_⟩)
        rw [BitVec.toNat_add, Nat.mod_eq_of_lt hsum]
        exact hlt
  | setEnd => exact hacc
  | wake => exact hacc

/-- A step of the module that leaves the buffer with room. -/
theorem counted_step (h : AccountStep c k a acc acc')
    (hfits : acc'.stage.begun = true → acc'.file.count < acc'.file.size) (hacc : acc.Counted) :
    acc'.Counted := by
  cases h with
  | stays => exact hacc
  | starts => rfl
  | resets => exact .inl ⟨rfl, hacc⟩
  | calls => exact hacc
  | prints _ hmove =>
      refine counted_print hmove (hfits ?_) hacc
      cases hmove <;> rfl
  | again => exact hacc
  | ends => exact hacc
  | timed _ hstage hstage' =>
      rcases hstage with rfl | ⟨again, rfl⟩ <;> rcases hstage' with rfl | rfl <;> exact hacc

/-- While nothing is at work, `len` is ahead. -/
theorem Counted.ahead (h : acc.Counted) (hsettled : acc.stage.settled = true) :
    Ahead acc.len acc.file.count := by
  obtain ⟨stage, len, file⟩ := acc
  cases stage with
  | absent | fresh => cases hsettled
  | due | ended => exact h
  | printing pc =>
      cases pc with
      | line _ _ _ | store _ _ => cases hsettled
      | readM _ | test _ _ _ | title _ _ => exact h.2
      | readLen | setEnd | wake | ret _ => exact h

/-- A call of `jiq_print` that is about to return 1 has printed something. -/
theorem printed_step (h : AccountStep c k a acc acc') (hacc : acc.Counted)
    (hprinted : acc.stage = .printing (.ret true) → 0 < acc.file.count) :
    acc'.stage = .printing (.ret true) → 0 < acc'.file.count := by
  cases h with
  | stays => exact hprinted
  | starts | resets | calls | again | ends => exact fun hret => nomatch hret
  | prints _ hmove =>
      cases hmove with
      | store => exact fun _ => hacc.1
      | readLen | readM | stops | first | next | title | line | setEnd | wake =>
          exact fun hret => nomatch hret
  | timed _ _ hstage' =>
      rcases hstage' with rfl | rfl <;> exact fun hret => nomatch hret

/-- Nothing is printed before the first call of `jiq_print` is about to return 1. -/
theorem unprinted_step (h : AccountStep c k a acc acc') (hacc : acc.Counted)
    (hzero : acc.stage.settled = true → acc.file.count = 0)
    (hret : acc'.stage ≠ .printing (.ret true)) :
    acc'.stage.settled = true → acc'.file.count = 0 := by
  cases h with
  | stays => exact hzero
  | starts => exact fun hsettled => nomatch hsettled
  | resets => exact fun _ => hacc
  | calls | again | ends => exact fun _ => hzero rfl
  | prints _ hmove =>
      cases hmove with
      | readLen | readM | stops | first | setEnd | wake => exact fun _ => hzero rfl
      | next | title | line => exact fun hsettled => nomatch hsettled
      | store => exact absurd rfl hret
  | timed _ hstage =>
      rcases hstage with rfl | ⟨again, rfl⟩ <;> exact fun _ => hzero rfl

/-- The first call of `jiq_print` goes on. -/
theorem stops_right_of_zero (h : AccountStep c k a acc acc') (hacc : acc.Counted)
    (hzero : acc.file.count = 0) : StopsRight acc acc' := by
  obtain ⟨stage, len, file⟩ := acc
  intro l m j hstage hmoved
  obtain rfl : stage = .printing (.test l m j) := hstage
  have hl : l = 0 := by
    obtain ⟨rfl, ⟨hlen, -⟩ | hlarge | ⟨hpos, -⟩⟩ := hacc
    · exact hlen
    · exact absurd (hzero ▸ hlarge) (by decide)
    · exact absurd (hzero ▸ hpos) (Nat.lt_irrefl _)
  subst hl
  refine iff_of_false ?_ (hzero ▸ Nat.not_lt_zero _)
  cases h with
  | stays => exact absurd rfl hmoved
  | timed _ hstage => rcases hstage with hstage | ⟨_, hstage⟩ <;> cases hstage
  | prints _ hmove =>
      cases hmove with
      | stops hlimit => exact absurd hlimit (by decide)
      | first => nofun
      | next => nofun

end Account

namespace JiqState

variable {s t : JiqState} {c : Nat} {k : Kind}

/-- The accounting over whole runs. In a run with one show call, from a module in which nothing is
on the way, whose buffer does not overflow, `len` is the number of bytes printed whenever no call of
`jiq_print` is at work, and the calls stop exactly when more than `LIMIT` bytes are printed, if and
only if no call of `jiq_print` gets so far as to return 1. -/
theorem jiq_accounting_iff (delay : BitVec 64) {s : JiqState} (hquiet : s.Quiet) {c : Nat}
    (hnew : s.calls c = none) (k : Kind) (actions : List Action)
    (hsole : ∀ a ∈ actions, a.Sole c k)
    (hfits : ∀ t, Machine.Visits (step delay) s actions t → (t.stage c k).begun = true →
      (t.files c).count < (t.files c).size) :
    ((∀ t, Machine.Visits (step delay) s actions t → (t.account c k).Exact) ∧
        ∀ t a e t', Machine.Takes (step delay) s actions t a e t' →
          Account.StopsRight (t.account c k) (t'.account c k)) ↔
      ∀ t, Machine.Visits (step delay) s actions t → t.stage c k ≠ .printing (.ret true) := by
  have hinv : ∀ t, Machine.Visits (step delay) s actions t → t.Solo c k (t.stage c k) ∧
      (t.account c k).Counted ∧ (t.stage c k = .printing (.ret true) → 0 < (t.files c).count) :=
    fun t ht => account_of_visits (J := fun acc => acc.Counted ∧
        (acc.stage = .printing (.ret true) → 0 < acc.file.count))
      (G := fun _ acc => acc.stage.begun = true → acc.file.count < acc.file.size)
      hquiet hnew (fun _ _ => ⟨trivial, fun hret => nomatch hret⟩)
      (fun _ _ _ hstep hroom h => ⟨Account.counted_step hstep hroom h.1,
        Account.printed_step hstep h.1 h.2⟩)
      (fun t a e t' htake => ⟨hsole a htake.action_mem, hfits t' htake.target⟩) ht
  have hexact : ∀ t, Machine.Visits (step delay) s actions t → (t.stage c k).settled = true →
      (t.data.len.toInt = (t.files c).count ↔ (t.files c).count = 0) := fun t ht hsettled =>
    ((hinv t ht).2.1.ahead hsettled).exact_iff
  constructor
  · intro h t ht hret
    have hprinted := (hinv t ht).2.2 hret
    have hsettled : (t.stage c k).settled = true := by
      rw [hret]
      rfl
    exact absurd ((hexact t ht hsettled).mp (h.1 t ht hsettled)) (Nat.ne_of_gt hprinted)
  · intro hret
    have hzero : ∀ t, Machine.Visits (step delay) s actions t → (t.stage c k).settled = true →
        (t.files c).count = 0 := by
      intro t ht
      refine (account_of_visits (J := fun acc => acc.Counted ∧
          (acc.stage.settled = true → acc.file.count = 0))
        (G := fun _ acc => (acc.stage.begun = true → acc.file.count < acc.file.size) ∧
          acc.stage ≠ .printing (.ret true)) hquiet hnew
        (fun _ _ => ⟨trivial, fun hsettled => nomatch hsettled⟩) ?_ ?_ ht).2.2
      · rintro a acc acc' hstep ⟨hroom, hnot⟩ ⟨hcounted, hzero⟩
        exact ⟨Account.counted_step hstep hroom hcounted,
          Account.unprinted_step hstep hcounted hzero hnot⟩
      · intro t a e t' htake
        exact ⟨hsole a htake.action_mem, hfits t' htake.target, hret t' htake.target⟩
    refine ⟨fun t ht hsettled => (hexact t ht hsettled).mpr (hzero t ht hsettled), ?_⟩
    intro t a e t' htake
    obtain ⟨hsolo, hcounted, -⟩ := hinv t htake.source
    have hstep := (account_step hsolo (hsole a htake.action_mem) htake.step_eq).2
    intro l m j hstage
    have hsettled : (t.stage c k).settled = true := by
      rw [show t.stage c k = .printing (.test l m j) from hstage]
      rfl
    exact Account.stops_right_of_zero hstep hcounted (hzero t htake.source hsettled) l m j hstage

/-- The buffer does not overflow in a run that passes the test. -/
theorem fits_of_everywhere {delay : BitVec 64} {actions : List Action}
    (h : Machine.everywhere (step delay) (fun t => !(t.stage c k).begun ||
      decide ((t.files c).count < (t.files c).size)) s actions = true) :
    ∀ t, Machine.Visits (step delay) s actions t → (t.stage c k).begun = true →
      (t.files c).count < (t.files c).size := by
  intro t ht hbegun
  have hall := Machine.visits_of_everywhere h t ht
  simpa [hbegun] using hall

/-- A read of the work queue file, up to the titles. -/
def titles : List Action :=
  .start 0 .wq 4096 :: List.replicate 5 (.call 0 ⟨0, 46⟩) ++
    .run .wq :: List.replicate 4 (.callback .wq ⟨0, 46⟩)

/-- The first call has not returned yet, and the accounting is exact. -/
theorem jiq_accounting_titles :
    (∀ t, Machine.Visits (step 0) init titles t → (t.account 0 .wq).Exact) ∧
      ∀ t a e t', Machine.Takes (step 0) init titles t a e t' →
        Account.StopsRight (t.account 0 .wq) (t'.account 0 .wq) := by
  have hsole : ∀ a ∈ titles, a.Sole 0 .wq := by simp [titles, Action.Sole]
  refine (jiq_accounting_iff 0 quiet_init rfl .wq titles hsole
    (fits_of_everywhere (by decide))).mpr ?_
  intro t ht hret
  have hall := Machine.visits_of_everywhere
    (p := fun t => decide (t.stage 0 .wq ≠ .printing (.ret true))) (by decide) t ht
  exact of_decide_eq_true hall hret

/-- After a line of 46 bytes `len` is 130, and 88 bytes are printed. -/
theorem jiq_accounting_broken :
    ¬ ∀ (delay : BitVec 64) (s : JiqState), s.Quiet → ∀ c, s.calls c = none →
      ∀ (k : Kind) (actions : List Action), (∀ a ∈ actions, a.Sole c k) →
      (∀ t, Machine.Visits (step delay) s actions t → (t.stage c k).begun = true →
        (t.files c).count < (t.files c).size) →
      (∀ t, Machine.Visits (step delay) s actions t → (t.account c k).Exact) ∧
        ∀ t a e t', Machine.Takes (step delay) s actions t a e t' →
          Account.StopsRight (t.account c k) (t'.account c k) := by
  intro h
  obtain ⟨hexact, -⟩ := h 0 init quiet_init 0 rfl .wq
    (titles ++ List.replicate 2 (.callback .wq ⟨0, 46⟩)) (by simp [titles, Action.Sole])
    (fits_of_everywhere (by decide))
  have hlen := hexact _ (Machine.visits_of_run (rfl : Machine.run _ _ _ = some (_, _))) rfl
  exact absurd hlen (by decide)

end JiqState

end Ldd3.Jiq
