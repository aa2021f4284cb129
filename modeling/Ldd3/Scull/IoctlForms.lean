import Ldd3.Machine
import Ldd3.Scull.Ioctl
import Mathlib.Algebra.Ring.Int.Defs

/-!
# The forms of the ioctls

What a caller may rely on. A call that fails should change nothing: `failed_ioctl_unchanged_iff`
says which ones do, because `__get_user` stores straight into `scull_quantum`. The forms that set
the quantum and the forms that read it should agree: a value goes in as an `int` or as an
`unsigned long` and comes out as an `int` or as a `long`, and `quantum_forms_agree_iff` says that
the `int` is what loses values.
-/

namespace Ldd3.Scull

variable {tun : Tunables} {cmd : BitVec 32} {arg : BitVec 64} {env : IoctlEnv}

/-- The switch finds every command by its number. -/
theorem decode_number (c : IoctlCmd) : decode c.number = some c := by
  cases c <;> decide

/-- A command has one number only. -/
theorem number_of_decode {c : IoctlCmd} (h : decode cmd = some c) : cmd = c.number := by
  have hfound := List.find?_some h
  exact (beq_iff_eq.mp hfound).symm

/-- The call reaches the switch with command `c`. -/
structure Reaches (cmd : BitVec 32) (arg : BitVec 64) (env : IoctlEnv) (c : IoctlCmd) : Prop where
  number : cmd = c.number
  accessOk : env.accessOk arg (iocSize cmd) = true

/-- A command that reaches the switch is the only one. -/
theorem Reaches.unique {c d : IoctlCmd} (h : Reaches cmd arg env c) (hd : cmd = d.number) :
    c = d := by
  have hdecode := decode_number c
  rw [← h.number, hd, decode_number] at hdecode
  exact (Option.some.inj hdecode).symm

/-- A call reaches the switch, or it is refused and nothing happens. -/
theorem scull_ioctl_cases (tun : Tunables) (cmd : BitVec 32) (arg : BitVec 64) (env : IoctlEnv) :
    (∃ c, Reaches cmd arg env c ∧ scullIoctl tun cmd arg env = ioctlSwitch tun c arg env) ∨
      (∀ c, ¬ Reaches cmd arg env c) ∧
        ∃ err, scullIoctl tun cmd arg env = ⟨tun, .error err, none⟩ := by
  by_cases hreach : ∃ c, Reaches cmd arg env c
  · obtain ⟨c, hc⟩ := hreach
    refine .inl ⟨c, hc, ?_⟩
    obtain ⟨rfl, haccess⟩ := hc
    exact scull_ioctl_number tun c arg env haccess
  · refine .inr ⟨fun c hc => hreach ⟨c, hc⟩, ?_⟩
    unfold scullIoctl
    split
    · exact ⟨_, rfl⟩
    · split
      · exact ⟨_, rfl⟩
      · split
        · exact ⟨_, rfl⟩
        · rename_i haccess
          split
          · rename_i c hdecode
            exact absurd ⟨c, number_of_decode hdecode, by simpa using haccess⟩ hreach
          · exact ⟨_, rfl⟩

/-- The call has stored a new value in `scull_quantum` when it fails: it cannot read the caller's
value, or it has read it and cannot store the old one. -/
def StoresAndFails (tun : Tunables) (cmd : BitVec 32) (arg : BitVec 64) (env : IoctlEnv) : Prop :=
  env.accessOk arg (iocSize cmd) = true ∧ env.capable = true ∧
    ((cmd = IoctlCmd.iocsquantum.number ∨ cmd = IoctlCmd.iocxquantum.number) ∧
        env.user = none ∧ tun.scullQuantum ≠ 0 ∨
      cmd = IoctlCmd.iocxquantum.number ∧ env.putOk = false ∧
        ∃ value, env.user = some value ∧ tun.scullQuantum ≠ (value.signExtend 64).toNat)

/-- The commands that can fail after a store. -/
def IoctlCmd.readsUser : IoctlCmd → Bool
  | iocsquantum | iocxquantum => true
  | _ => false

/-- A command that does not read from the caller changes nothing when it fails. -/
theorem ioctl_switch_unchanged {c : IoctlCmd} (hc : c.readsUser = false) {err : Errno}
    (h : (ioctlSwitch tun c arg env).ret = .error err) :
    (ioctlSwitch tun c arg env).tunables = tun := by
  cases c with
  | iocsquantum | iocxquantum => cases hc
  | iocreset | pIoctsize => cases h
  | iocgquantum | iocqquantum | pIocqsize => rfl
  | ioctquantum | iochquantum =>
      cases hcap : env.capable with
      | false => simp [ioctlSwitch, hcap]
      | true => simp [ioctlSwitch, hcap] at h

/-- Only the quantum is at stake. -/
theorem quantum_unchanged_iff {value : Nat} :
    ({ tun with scullQuantum := value } : Tunables) = tun ↔ tun.scullQuantum = value := by
  constructor
  · intro h
    exact (congrArg Tunables.scullQuantum h).symm
  · rintro rfl
    rfl

/-- A call that fails, for want of a command, of an access or of a capability, leaves all three
tunables as they were, exactly when it has not stored another value in `scull_quantum` before. -/
theorem failed_ioctl_unchanged_iff (tun : Tunables) (cmd : BitVec 32) (arg : BitVec 64)
    (env : IoctlEnv) :
    (∀ err, (scullIoctl tun cmd arg env).ret = .error err →
        (scullIoctl tun cmd arg env).tunables = tun) ↔
      ¬ StoresAndFails tun cmd arg env := by
  rcases scull_ioctl_cases tun cmd arg env with ⟨c, hreach, heq⟩ | ⟨hnone, err, heq⟩
  · rw [heq]
    cases hc : c.readsUser with
    | false =>
        have hnot : ¬ StoresAndFails tun cmd arg env := by
          rintro ⟨-, -, ⟨hcmd | hcmd, -⟩ | ⟨hcmd, -⟩⟩ <;>
            · cases hreach.unique hcmd
              cases hc
        exact iff_of_true (fun err h => ioctl_switch_unchanged hc h) hnot
    | true =>
        have hnumber := hreach.number
        subst hnumber
        have haccess := hreach.accessOk
        -- what is left are the two commands that read, with and without the capability
        cases c with
        | iocsquantum =>
            have hne : IoctlCmd.iocsquantum.number ≠ IoctlCmd.iocxquantum.number := by decide
            cases hcap : env.capable <;> cases huser : env.user <;>
              simp [StoresAndFails, ioctlSwitch, getUserQuantum, hcap, huser, haccess, hne,
                quantum_unchanged_iff]
        | iocxquantum =>
            cases hcap : env.capable <;> cases huser : env.user <;> cases hput : env.putOk <;>
              simp [StoresAndFails, ioctlSwitch, getUserQuantum, putUser, hcap, huser, hput,
                haccess, quantum_unchanged_iff]
        | _ => cases hc
  · have hnot : ¬ StoresAndFails tun cmd arg env := by
      rintro ⟨haccess, -, ⟨hcmd | hcmd, -⟩ | ⟨hcmd, -⟩⟩ <;> exact hnone _ ⟨hcmd, haccess⟩
    exact iff_of_true (fun err _ => by rw [heq]) hnot

/-- Set from an address that faults leaves the quantum at zero. -/
theorem failed_ioctl_changes_quantum :
    ¬ ∀ (tun : Tunables) (cmd : BitVec 32) (arg : BitVec 64) (env : IoctlEnv) (err : Errno),
      (scullIoctl tun cmd arg env).ret = .error err →
        (scullIoctl tun cmd arg env).tunables = tun := by
  intro h
  have hset := h ⟨4000, 1000, 4000⟩ IoctlCmd.iocsquantum.number 0
    ⟨fun _ _ => true, true, none, true⟩ .EFAULT rfl
  exact absurd hset (by decide)

/-- A call of `scull_ioctl`. -/
structure IoctlCall where
  cmd : BitVec 32
  arg : BitVec 64
  env : IoctlEnv

namespace IoctlCall

/-- The value a call installs as the quantum: an `int` of the caller with its sign, the argument, or
the default. -/
def installs (call : IoctlCall) : Option (BitVec 64) :=
  match decode call.cmd with
  | some .iocsquantum | some .iocxquantum => call.env.user.map (BitVec.signExtend 64)
  | some .ioctquantum | some .iochquantum => some call.arg
  | some .iocreset => some (BitVec.ofNat 64 defaultQuantum)
  | _ => none

/-- The value a call delivers: an `int` stored for the caller, with its sign, or the result. -/
def delivers (call : IoctlCall) (result : IoctlResult) : Option (BitVec 64) :=
  match decode call.cmd with
  | some .iocgquantum | some .iocxquantum => result.stored.map (BitVec.signExtend 64)
  | some .iocqquantum | some .iochquantum =>
      match result.ret with
      | .ok value => some (BitVec.ofInt 64 value)
      | .error _ => none
  | _ => none

/-- The call takes the quantum through an `int` on its way to the caller. -/
def throughInt (call : IoctlCall) : Bool :=
  match decode call.cmd with
  | some .iocgquantum | some .iocxquantum | some .iochquantum => true
  | _ => false

end IoctlCall

/-- The tunables, and what the last call that installed a quantum has installed. -/
structure FormState where
  tun : Tunables
  installed : Option (BitVec 64)

namespace FormState

/-- The module before the first call of a sequence. -/
def init (tun : Tunables) : FormState := ⟨tun, none⟩

/-- One call. -/
def step (s : FormState) (call : IoctlCall) : Option (FormState × IoctlResult) :=
  let result := scullIoctl s.tun call.cmd call.arg call.env
  some (⟨result.tunables, call.installs.or s.installed⟩, result)

/-- The call succeeds. -/
def Succeeds (result : IoctlResult) : Prop := ∃ value, result.ret = .ok value

/-- What the call delivers is what was installed last. -/
def DeliversInstalled (s : FormState) (call : IoctlCall) (result : IoctlResult) : Prop :=
  ∀ installed delivered, s.installed = some installed →
    call.delivers result = some delivered → delivered = installed

end FormState

/-- The value of an `unsigned long` is that of an `int`. -/
def FitsInt (value : BitVec 64) : Prop :=
  -(2 ^ 31) ≤ value.toInt ∧ value.toInt < 2 ^ 31

/-- These are the values that an `int` does not change. -/
theorem fits_int_iff (value : BitVec 64) :
    (value.setWidth 32).signExtend 64 = value ↔ FitsInt value := by
  rw [← BitVec.toInt_inj, BitVec.toInt_signExtend_of_le (by decide), BitVec.toInt_setWidth,
    BitVec.toInt_eq_toNat_bmod value, FitsInt, BitVec.toInt_eq_toNat_bmod value]
  have hlt := value.isLt
  simp only [Int.bmod_def]
  omega

namespace FormState

variable {s t : FormState} {call : IoctlCall} {result : IoctlResult}

/-- The call does not take a quantum through an `int` that does not fit. -/
def KeepsInt (s : FormState) (call : IoctlCall) : Prop :=
  call.throughInt = true → ∀ installed, s.installed = some installed → FitsInt installed

/-- The quantum is what was installed last. -/
def Holds (s : FormState) : Prop :=
  ∀ installed, s.installed = some installed → s.tun.scullQuantum = installed.toNat

/-- A step that succeeds runs a command of the switch. -/
theorem step_succeeds (hstep : s.step call = some (t, result)) (hok : Succeeds result) :
    ∃ c, decode call.cmd = some c ∧ result = ioctlSwitch s.tun c call.arg call.env ∧
      t = ⟨result.tunables, call.installs.or s.installed⟩ := by
  cases hstep
  rcases scull_ioctl_cases s.tun call.cmd call.arg call.env with
    ⟨c, hreach, heq⟩ | ⟨-, err, heq⟩
  · exact ⟨c, by rw [hreach.number, decode_number], heq, rfl⟩
  · obtain ⟨value, hvalue⟩ := hok
    rw [heq] at hvalue
    cases hvalue

/-- A call that succeeds leaves what it installs, or what there was. -/
theorem quantum_of_succeeds {c : IoctlCmd} (hdecode : decode call.cmd = some c)
    (hok : Succeeds (ioctlSwitch tun c call.arg call.env)) :
    (ioctlSwitch tun c call.arg call.env).tunables.scullQuantum =
      (call.installs.map BitVec.toNat).getD tun.scullQuantum := by
  obtain ⟨value, hvalue⟩ := hok
  cases c with
  | iocreset | iocgquantum | iocqquantum | pIoctsize | pIocqsize =>
      simp [IoctlCall.installs, hdecode, ioctlSwitch, defaultQuantum]
  | iocsquantum | ioctquantum | iocxquantum | iochquantum =>
      cases hcap : call.env.capable <;> cases huser : call.env.user <;>
        simp_all [IoctlCall.installs, ioctlSwitch, getUserQuantum]

/-- What a call delivers of the quantum. -/
theorem delivered_of_succeeds {c : IoctlCmd} {quantum delivered : BitVec 64}
    (hdecode : decode call.cmd = some c) (hquantum : tun.scullQuantum = quantum.toNat)
    (hdelivers : call.delivers (ioctlSwitch tun c call.arg call.env) = some delivered) :
    delivered =
      if call.throughInt then (quantum.setWidth 32).signExtend 64 else quantum := by
  cases c with
  | iocreset | iocsquantum | ioctquantum | pIoctsize | pIocqsize =>
      simp [IoctlCall.delivers, hdecode] at hdelivers
  | iocqquantum =>
      simp_all [IoctlCall.delivers, IoctlCall.throughInt, ioctlSwitch]
  | iocgquantum =>
      cases hput : call.env.putOk <;>
        simp_all [IoctlCall.delivers, IoctlCall.throughInt, ioctlSwitch, putUser]
  | iocxquantum =>
      cases hcap : call.env.capable <;> cases huser : call.env.user <;>
        cases hput : call.env.putOk <;>
        simp_all [IoctlCall.delivers, IoctlCall.throughInt, ioctlSwitch, putUser, getUserQuantum]
  | iochquantum =>
      cases hcap : call.env.capable <;>
        simp_all [IoctlCall.delivers, IoctlCall.throughInt, ioctlSwitch, BitVec.signExtend]

/-- A call that takes the quantum through an `int` and succeeds delivers something. -/
theorem delivers_of_succeeds {c : IoctlCmd} (hdecode : decode call.cmd = some c)
    (hint : call.throughInt = true) (hok : Succeeds (ioctlSwitch tun c call.arg call.env)) :
    ∃ delivered, call.delivers (ioctlSwitch tun c call.arg call.env) = some delivered := by
  obtain ⟨value, hvalue⟩ := hok
  cases c with
  | iocreset | iocsquantum | ioctquantum | iocqquantum | pIoctsize | pIocqsize =>
      simp [IoctlCall.throughInt, hdecode] at hint
  | iocgquantum =>
      cases hput : call.env.putOk <;> simp_all [IoctlCall.delivers, ioctlSwitch, putUser]
  | iocxquantum =>
      cases hcap : call.env.capable <;> cases huser : call.env.user <;>
        cases hput : call.env.putOk <;>
        simp_all [IoctlCall.delivers, ioctlSwitch, putUser, getUserQuantum]
  | iochquantum => simp [IoctlCall.delivers, hdecode, hvalue]

/-- The forms of the quantum ioctls agree. In a sequence of calls that all succeed, whatever value
Get, Query, eXchange or sHift delivers is the value that the last Set, Tell, eXchange, sHift or
Reset before it has installed, exactly when no Get, eXchange or sHift meets an installed value
outside the range of an `int`. -/
theorem quantum_forms_agree_iff (tun : Tunables) (calls : List IoctlCall)
    (hok : ∀ t call result t', Machine.Takes step (init tun) calls t call result t' →
      Succeeds result) :
    (∀ t call result t', Machine.Takes step (init tun) calls t call result t' →
        t.DeliversInstalled call result) ↔
      ∀ t call result t', Machine.Takes step (init tun) calls t call result t' →
        t.KeepsInt call := by
  refine Machine.takes_iff_guarded (I := Holds) (S := fun _ _ result _ => Succeeds result)
    ?_ ?_ ?_ (fun installed h => by cases h) hok
  · intro t call result t' ht hsucceeds _ hstep
    obtain ⟨c, hdecode, rfl, rfl⟩ := step_succeeds hstep hsucceeds
    intro installed hinstalled
    have hquantum := quantum_of_succeeds hdecode hsucceeds
    cases hinstalls : call.installs with
    | none =>
        rw [hinstalls] at hquantum
        have hold : t.installed = some installed := by simpa [hinstalls] using hinstalled
        exact hquantum.trans (ht installed hold)
    | some value =>
        rw [hinstalls] at hquantum
        have hnew : value = installed := by simpa [hinstalls] using hinstalled
        exact hnew ▸ hquantum
  · intro t call result t' ht hsucceeds hkeeps hstep
    obtain ⟨c, hdecode, rfl, -⟩ := step_succeeds hstep hsucceeds
    intro installed delivered hinstalled hdelivers
    rw [delivered_of_succeeds hdecode (ht installed hinstalled) hdelivers]
    split
    · rename_i hint
      exact (fits_int_iff installed).mpr (hkeeps hint installed hinstalled)
    · rfl
  · intro t call result t' ht hsucceeds hstep hdelivered hint installed hinstalled
    obtain ⟨c, hdecode, rfl, -⟩ := step_succeeds hstep hsucceeds
    obtain ⟨delivered, hdelivers⟩ := delivers_of_succeeds hdecode hint hsucceeds
    have hsame := hdelivered installed delivered hinstalled hdelivers
    rw [delivered_of_succeeds hdecode (ht installed hinstalled) hdelivers, if_pos hint] at hsame
    exact (fits_int_iff installed).mp hsame

/-- A caller that may do everything and whose memory does not fault. -/
def ableCaller (user : BitVec 32) : IoctlEnv := ⟨fun _ _ => true, true, some user, true⟩

/-- Set to minus one, sHift to eight thousand and Query. -/
def setAndShift : List IoctlCall :=
  [⟨IoctlCmd.iocsquantum.number, 0, ableCaller (-1)⟩,
    ⟨IoctlCmd.iochquantum.number, 8000, ableCaller 0⟩,
    ⟨IoctlCmd.iocqquantum.number, 0, ableCaller 0⟩]

/-- The calls succeed, and each delivers what the one before it has installed. -/
theorem quantum_forms_agree_shift :
    (∀ t call result t', Machine.Takes step (init ⟨4000, 1000, 4000⟩) setAndShift t call result t' →
      Succeeds result) ∧
    ∀ t call result t', Machine.Takes step (init ⟨4000, 1000, 4000⟩) setAndShift t call result t' →
      t.DeliversInstalled call result := by
  have hok : ∀ t call result t', Machine.Takes step (init ⟨4000, 1000, 4000⟩) setAndShift t call
      result t' → Succeeds result :=
    Machine.forall_takes_cons rfl ⟨0, rfl⟩ (Machine.forall_takes_cons rfl ⟨-1, rfl⟩
      (Machine.forall_takes_cons rfl ⟨8000, rfl⟩ Machine.forall_takes_nil))
  refine ⟨hok, (quantum_forms_agree_iff ⟨4000, 1000, 4000⟩ setAndShift hok).mpr ?_⟩
  refine Machine.forall_takes_cons rfl (fun hint => absurd hint (by decide))
    (Machine.forall_takes_cons rfl ?_
      (Machine.forall_takes_cons rfl (fun hint => absurd hint (by decide))
        Machine.forall_takes_nil))
  rintro - installed ⟨⟩
  exact ⟨by decide, by decide⟩

/-- Tell a value of thirty-three bits and Get it. -/
def tellAndGet : List IoctlCall :=
  [⟨IoctlCmd.ioctquantum.number, 0x100000000, ableCaller 0⟩,
    ⟨IoctlCmd.iocgquantum.number, 0, ableCaller 0⟩]

/-- Get delivers zero. -/
theorem quantum_forms_disagree :
    ¬ ∀ (tun : Tunables) (calls : List IoctlCall),
      (∀ t call result t', Machine.Takes step (init tun) calls t call result t' →
        Succeeds result) →
      ∀ t call result t', Machine.Takes step (init tun) calls t call result t' →
        t.DeliversInstalled call result := by
  intro h
  have hget := h ⟨4000, 1000, 4000⟩ tellAndGet
    (Machine.forall_takes_cons rfl ⟨0, rfl⟩
      (Machine.forall_takes_cons rfl ⟨0, rfl⟩ Machine.forall_takes_nil))
    _ _ _ _ (.later rfl (.here _ rfl))
  exact absurd (hget 0x100000000 0 rfl rfl) (by decide)

end FormState

end Ldd3.Scull
