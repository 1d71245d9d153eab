import Lvisor.GuestMode

/-!
# The control words and the capability MSRs (`vmx.c`)

`setup_vmcs_config` computes the five control words of the VMCS from what they need and from
the capability MSRs. The primary processor-based word is edited once more after that.

* `ControlWord` — the five words, with their MSR and what they need;
* `RespectsCapability` — what the processor demands of a control word;
* `adjustVmxControls_eq` — `adjust_vmx_controls` gives such a word, or panics where there is
  none;
* `controls_respected_iff` — the words that are stored are such words but for the two bits that
  the edit clears, which guests with EPT do not need; all of it holds unless the processor says
  that one of the two must be one.
-/

namespace Lvisor

/-! ## The words

What the processor demands of a control word is the same for all five: the bits of the low half
of its MSR are set, and no bit outside of the high half is. What the VMM demands is a minimum. -/

/-- The control words of a VMCS that are computed from capability MSRs. -/
inductive ControlWord where
  | pinBased | cpuBased | cpuBased2nd | vmexit | vmentry
  deriving DecidableEq, Repr

namespace ControlWord

/-- The capability MSR that a word is adjusted to. -/
def msr : ControlWord → BitVec 32
  | pinBased => 0x481#32
  | cpuBased => 0x482#32
  | cpuBased2nd => 0x48b#32
  | vmexit => 0x483#32
  | vmentry => 0x484#32

/-- `min`, the bits that the VMM requires of a word. -/
def ctlMin : ControlWord → BitVec 32
  | pinBased => 0#32
  | cpuBased => 0x10000000#32 ||| 0x80000000#32 ||| 0x00001000#32 ||| 0x00008000#32
  | cpuBased2nd => 0x00000002#32 ||| 0x00000020#32 ||| 0x00000080#32
  | vmexit => 0x00000004#32 ||| 0x00000200#32 ||| 0x00100000#32 ||| 0x00200000#32
  | vmentry => 0x00000004#32 ||| 0x00008000#32

/-- `opt`, the bits that are used where there are. -/
def ctlOpt : ControlWord → BitVec 32
  | pinBased => 0#32
  | cpuBased => 0#32
  | cpuBased2nd => 0x00000008#32 ||| 0x00001000#32
  | vmexit => 0x00040000#32 ||| 0x00080000#32 ||| 0x00800000#32
  | vmentry => 0x00004000#32 ||| 0x00010000#32

/-- The word that `setup_vmcs_config` stores in `struct vmcs_config`. -/
def stored (c : VmcsConfig) : ControlWord → BitVec 32
  | pinBased => c.pinBasedExecCtrl
  | cpuBased => c.cpuBasedExecCtrl
  | cpuBased2nd => c.cpuBased2ndExecCtrl
  | vmexit => c.vmexitCtrl
  | vmentry => c.vmentryCtrl

/-- The five words together, as a function of which word it is. -/
def gather (pinBased cpuBased cpuBased2nd vmexit vmentry : BitVec 32) : ControlWord → BitVec 32
  | .pinBased => pinBased
  | .cpuBased => cpuBased
  | .cpuBased2nd => cpuBased2nd
  | .vmexit => vmexit
  | .vmentry => vmentry

end ControlWord

/-- `vmx_msr_low`: the bits that must be one. -/
def allowed0 (cap : BitVec 64) : BitVec 32 := cap.setWidth 32

/-- `vmx_msr_high`: the bits that may be one. -/
def allowed1 (cap : BitVec 64) : BitVec 32 := (cap >>> 32).setWidth 32

/-- What must be one may be one: the capability MSR allows some word. -/
def Consistent (cap : BitVec 64) : Prop := allowed0 cap &&& ~~~allowed1 cap = 0#32

instance (cap : BitVec 64) : Decidable (Consistent cap) := inferInstanceAs (Decidable (_ = _))

/-- The control word has all bits that must be one, none that must be zero, and all that are
required. -/
structure RespectsCapability (cap : BitVec 64) (ctlMin ctl : BitVec 32) : Prop where
  mustBeOne : allowed0 cap &&& ~~~ctl = 0#32
  mustBeZero : ctl &&& ~~~allowed1 cap = 0#32
  required : ctlMin &&& ~~~ctl = 0#32

/-- `CPU_BASED_CR3_STORE_EXITING` and `CPU_BASED_INVLPG_EXITING`, which are cleared after the
adjustment. -/
def clearedControls : BitVec 32 := 0x00010000#32 ||| 0x00000200#32

/-- What `setup_vmcs_config` clears from a word after the adjuster: nothing, but for the primary
processor-based one. -/
def ControlWord.cleared : ControlWord → BitVec 32
  | cpuBased => clearedControls
  | _ => 0#32

/-- The control word is as the processor demands but for some bits, and these are clear. -/
structure RespectsBut (cleared : BitVec 32) (cap : BitVec 64) (ctlMin ctl : BitVec 32) : Prop where
  mustBeOne : (allowed0 cap &&& ~~~cleared) &&& ~~~ctl = 0#32
  mustBeZero : ctl &&& ~~~allowed1 cap = 0#32
  required : ctlMin &&& ~~~ctl = 0#32
  isClear : ctl &&& cleared = 0#32

/-- The text of the panic in `adjust_vmx_controls`. -/
def minimumPanic : String := "vmx: failed to set minimum control bits\n"

/-- The processor has all bits that the word requires. -/
def ControlWord.Allowed (rdmsr : BitVec 32 → BitVec 64) (w : ControlWord) : Prop :=
  w.ctlMin &&& ~~~allowed1 (rdmsr w.msr) = 0#32

instance ControlWord.decidableAllowed (rdmsr : BitVec 32 → BitVec 64) (w : ControlWord) :
    Decidable (w.Allowed rdmsr) :=
  inferInstanceAs (Decidable (_ = _))

/-- `MSR_IA32_VMX_BASIC` passes the two checks of `setup_vmcs_config`: the region has at most
4096 bytes, and is accessed as write-back memory. -/
def BasicAccepted (rdmsr : BitVec 32 → BitVec 64) : Prop :=
  (allowed1 (rdmsr 0x480#32) &&& 0x1fff#32).toNat ≤ pageSize.toNat ∧
    (allowed1 (rdmsr 0x480#32) >>> 18) &&& 15#32 = 6#32

/-! ## `adjust_vmx_controls` -/

section Adjust

variable {cap : BitVec 64} {x y z ctlMin ctlOpt : BitVec 32}

/-- Bits are all in a word, bit by bit. -/
theorem and_not_eq_zero_iff :
    x &&& ~~~y = 0#32 ↔ ∀ i < 32, x.getLsbD i = true → y.getLsbD i = true := by
  constructor
  · intro h i hi hx
    have hbit := congrArg (BitVec.getLsbD · i) h
    simpa [hi, hx] using hbit
  · intro h
    apply BitVec.eq_of_getLsbD_eq
    intro i hi
    rw [BitVec.getLsbD_and, BitVec.getLsbD_not, BitVec.getLsbD_zero]
    cases hx : x.getLsbD i with
    | false => rfl
    | true => simp [h i hi hx]

/-- The word that `adjust_vmx_controls` computes, before it is checked. -/
def adjusted (ctlMin ctlOpt : BitVec 32) (cap : BitVec 64) : BitVec 32 :=
  ((ctlMin ||| ctlOpt) &&& allowed1 cap) ||| allowed0 cap

/-- It lacks a required bit exactly when the processor does. -/
theorem required_adjusted_iff (ctlMin ctlOpt : BitVec 32) (hcap : Consistent cap) :
    ctlMin &&& ~~~adjusted ctlMin ctlOpt cap = 0#32 ↔ ctlMin &&& ~~~allowed1 cap = 0#32 := by
  have hsub := and_not_eq_zero_iff.mp hcap
  rw [and_not_eq_zero_iff, and_not_eq_zero_iff]
  refine forall_congr' fun i => forall_congr' fun hi => forall_congr' fun hmin => ?_
  have hbit := hsub i hi
  rw [adjusted, BitVec.getLsbD_or, BitVec.getLsbD_and, BitVec.getLsbD_or, hmin, Bool.true_or,
    Bool.true_and, Bool.or_eq_true]
  exact or_iff_left_of_imp hbit

/-- **The adjuster**: the word when the processor has what is required, and the panic
otherwise. -/
theorem adjustVmxControls_eq (hcap : Consistent cap) :
    adjustVmxControls ctlMin ctlOpt cap =
      if ctlMin &&& ~~~allowed1 cap = 0#32 then .ok (adjusted ctlMin ctlOpt cap)
      else .error (.panic minimumPanic) := by
  change (panicIf minimumPanic (ctlMin &&& ~~~adjusted ctlMin ctlOpt cap ≠ 0#32) >>= fun _ =>
    return adjusted ctlMin ctlOpt cap) = _
  by_cases h : ctlMin &&& ~~~allowed1 cap = 0#32
  · rw [if_pos h, (required_adjusted_iff _ _ hcap).mpr h]
    rfl
  · have hne := mt (required_adjusted_iff ctlMin ctlOpt hcap).mp h
    rw [if_neg h, panicIf, if_pos (decide_eq_true hne)]
    rfl

/-- What the adjuster gives is what the processor demands. -/
theorem respects_adjusted (hcap : Consistent cap) (hmin : ctlMin &&& ~~~allowed1 cap = 0#32) :
    RespectsCapability cap ctlMin (adjusted ctlMin ctlOpt cap) where
  mustBeOne := and_not_eq_zero_iff.mpr fun i _ h => by
    rw [adjusted, BitVec.getLsbD_or, h, Bool.or_true]
  mustBeZero := and_not_eq_zero_iff.mpr fun i hi h => by
    rw [adjusted, BitVec.getLsbD_or, BitVec.getLsbD_and, Bool.or_eq_true,
      Bool.and_eq_true] at h
    rcases h with h | h
    · exact h.2
    · exact and_not_eq_zero_iff.mp hcap i hi h
  required := (required_adjusted_iff _ _ hcap).mpr hmin

/-- Two words have no bit in common, bit by bit. -/
theorem and_eq_zero_iff :
    x &&& y = 0#32 ↔ ∀ i < 32, x.getLsbD i = true → y.getLsbD i = false := by
  have h := and_not_eq_zero_iff (x := x) (y := ~~~y)
  rw [BitVec.not_not] at h
  rw [h]
  refine forall_congr' fun i => forall_congr' fun hi => ?_
  simp [hi]

/-- Bits that a word needs stay when others are cleared. -/
theorem and_not_cleared {ctl cleared : BitVec 32} (hx : x &&& ~~~ctl = 0#32)
    (hc : x &&& cleared = 0#32) : x &&& ~~~(ctl &&& ~~~cleared) = 0#32 := by
  refine and_not_eq_zero_iff.mpr fun i hi hbit => ?_
  rw [BitVec.getLsbD_and, BitVec.getLsbD_not, and_not_eq_zero_iff.mp hx i hi hbit,
    and_eq_zero_iff.mp hc i hi hbit]
  simpa using hi

/-- Clearing bits that are not required leaves all else. -/
theorem respectsBut_cleared {ctl cleared : BitVec 32} (h : RespectsCapability cap ctlMin ctl)
    (hmin : ctlMin &&& cleared = 0#32) :
    RespectsBut cleared cap ctlMin (ctl &&& ~~~cleared) where
  mustBeOne := by
    refine and_not_cleared ?_ ?_
    · refine and_not_eq_zero_iff.mpr fun i hi hbit => ?_
      rw [BitVec.getLsbD_and, Bool.and_eq_true] at hbit
      exact and_not_eq_zero_iff.mp h.mustBeOne i hi hbit.1
    · simp [BitVec.and_assoc]
  mustBeZero := by
    refine and_not_eq_zero_iff.mpr fun i hi hbit => ?_
    rw [BitVec.getLsbD_and, Bool.and_eq_true] at hbit
    exact and_not_eq_zero_iff.mp h.mustBeZero i hi hbit.1
  required := and_not_cleared h.required hmin
  isClear := by simp [BitVec.and_assoc]

/-- The word is as the processor demands if none of the cleared bits must be one, and only
then. -/
theorem RespectsBut.respects_iff {ctl cleared : BitVec 32}
    (h : RespectsBut cleared cap ctlMin ctl) :
    RespectsCapability cap ctlMin ctl ↔ allowed0 cap &&& cleared = 0#32 := by
  constructor
  · intro hr
    refine and_eq_zero_iff.mpr fun i hi hbit => ?_
    exact and_eq_zero_iff.mp h.isClear i hi (and_not_eq_zero_iff.mp hr.mustBeOne i hi hbit)
  · intro hclear
    refine ⟨and_not_eq_zero_iff.mpr fun i hi hbit => ?_, h.mustBeZero, h.required⟩
    refine and_not_eq_zero_iff.mp h.mustBeOne i hi ?_
    rw [BitVec.getLsbD_and, hbit, BitVec.getLsbD_not, and_eq_zero_iff.mp hclear i hi hbit]
    simpa using hi

end Adjust

/-! ## `setup_vmcs_config`

The setup adjusts the words one after another and stores them. With EPT it clears two bits of the
primary word again, the exits of MOV from CR3 and of INVLPG, which guests with EPT do not need. -/

section Setup

variable {rdmsr : BitVec 32 → BitVec 64}

/-- A call of the adjuster in `setup_vmcs_config`, for one of the words. -/
def adjustWord (rdmsr : BitVec 32 → BitVec 64) (w : ControlWord) : Exec (BitVec 32) :=
  adjustVmxControls w.ctlMin w.ctlOpt (rdmsr w.msr)

/-- The word of that call, when it does not panic. -/
def adjustedWord (rdmsr : BitVec 32 → BitVec 64) (w : ControlWord) : BitVec 32 :=
  adjusted w.ctlMin w.ctlOpt (rdmsr w.msr)

/-- The two checks of `MSR_IA32_VMX_BASIC`, and what `setup_vmcs_config` stores. -/
def checkAndStore (rdmsr : BitVec 32 → BitVec 64) (word : ControlWord → BitVec 32) :
    Exec (VmcsConfig × VmxCapability) := do
  let vmxMsrHigh := allowed1 (rdmsr 0x480#32)
  panicIf "vmx: VMCS size is never greater than 4KB\n"
    ((vmxMsrHigh &&& 0x1fff#32).toNat > pageSize.toNat)
  panicIf "vmx: require write-back memory type for VMCS accesses\n"
    ((vmxMsrHigh >>> 18) &&& 15#32 ≠ 6#32)
  return (
    { size := vmxMsrHigh &&& 0x1fff#32
      basicCap := vmxMsrHigh &&& ~~~0x1fff#32
      revisionId := allowed0 (rdmsr 0x480#32)
      pinBasedExecCtrl := word .pinBased
      cpuBasedExecCtrl := word .cpuBased &&& ~~~clearedControls
      cpuBased2ndExecCtrl := word .cpuBased2nd
      vmexitCtrl := word .vmexit
      vmentryCtrl := word .vmentry },
    { ept := (rdmsr 0x48c#32).setWidth 32, vpid := (rdmsr 0x48c#32 >>> 32).setWidth 32 })

/-- `setup_vmcs_config` is five calls of the adjuster and the rest. -/
theorem setupVmcsConfig_eq :
    setupVmcsConfig rdmsr =
      (adjustWord rdmsr .cpuBased >>= fun cpuBased =>
        adjustWord rdmsr .cpuBased2nd >>= fun cpuBased2nd =>
        adjustWord rdmsr .vmexit >>= fun vmexit =>
        adjustWord rdmsr .pinBased >>= fun pinBased =>
        adjustWord rdmsr .vmentry >>= fun vmentry =>
        checkAndStore rdmsr (ControlWord.gather pinBased cpuBased cpuBased2nd vmexit vmentry)) :=
  rfl

theorem adjustWord_of_allowed {w : ControlWord} (hcap : Consistent (rdmsr w.msr))
    (h : w.Allowed rdmsr) : adjustWord rdmsr w = .ok (adjustedWord rdmsr w) :=
  (adjustVmxControls_eq hcap).trans (if_pos h)

theorem adjustWord_of_not_allowed {w : ControlWord} (hcap : Consistent (rdmsr w.msr))
    (h : ¬w.Allowed rdmsr) : adjustWord rdmsr w = .error (.panic minimumPanic) :=
  (adjustVmxControls_eq hcap).trans (if_neg h)

/-- With all that is required, the adjuster does not panic. -/
theorem setup_of_allowed (hcap : ∀ w : ControlWord, Consistent (rdmsr w.msr))
    (h : ∀ w : ControlWord, w.Allowed rdmsr) :
    setupVmcsConfig rdmsr = checkAndStore rdmsr (adjustedWord rdmsr) := by
  have hok : ∀ w, adjustWord rdmsr w = .ok (adjustedWord rdmsr w) :=
    fun w => adjustWord_of_allowed (hcap w) (h w)
  rewrite [setupVmcsConfig_eq, hok, hok, hok, hok, hok]
  rfl

/-- Without, it does: the other calls pass or panic with the same text. -/
theorem setup_of_not_allowed (hcap : ∀ w : ControlWord, Consistent (rdmsr w.msr))
    {w : ControlWord} (h : ¬w.Allowed rdmsr) :
    setupVmcsConfig rdmsr = .error (.panic minimumPanic) := by
  have hstep : ∀ (w' : ControlWord) (f : BitVec 32 → Exec (VmcsConfig × VmxCapability)),
      (w' = w ∨ ∀ x, f x = .error (.panic minimumPanic)) →
        (adjustWord rdmsr w' >>= f) = .error (.panic minimumPanic) := by
    intro w' f hw'
    by_cases hall : w'.Allowed rdmsr
    · rw [adjustWord_of_allowed (hcap w') hall]
      rcases hw' with rfl | hf
      · exact absurd hall h
      · exact hf _
    · rw [adjustWord_of_not_allowed (hcap w') hall]
      rfl
  rw [setupVmcsConfig_eq]
  cases w with
  | cpuBased => exact hstep _ _ (.inl rfl)
  | cpuBased2nd => exact hstep _ _ (.inr fun _ => hstep _ _ (.inl rfl))
  | vmexit => exact hstep _ _ (.inr fun _ => hstep _ _ (.inr fun _ => hstep _ _ (.inl rfl)))
  | pinBased =>
    exact hstep _ _ (.inr fun _ => hstep _ _ (.inr fun _ => hstep _ _ (.inr fun _ =>
      hstep _ _ (.inl rfl))))
  | vmentry =>
    exact hstep _ _ (.inr fun _ => hstep _ _ (.inr fun _ => hstep _ _ (.inr fun _ =>
      hstep _ _ (.inr fun _ => hstep _ _ (.inl rfl)))))

/-- The words that are stored are those that were computed. -/
theorem stored_of_checkAndStore {word : ControlWord → BitVec 32} {config : VmcsConfig}
    {cap : VmxCapability} (h : checkAndStore rdmsr word = .ok (config, cap)) (w : ControlWord) :
    w.stored config = word w &&& ~~~w.cleared := by
  unfold checkAndStore at h
  rw [panicIf_bind_eq_ok, panicIf_bind_eq_ok] at h
  obtain ⟨-, -, h⟩ := h
  obtain ⟨rfl, -⟩ := Prod.mk.inj (Except.ok.inj h)
  cases w with
  | cpuBased => rfl
  | _ => exact (BitVec.and_allOnes).symm

/-- The rest of the function passes when `MSR_IA32_VMX_BASIC` is accepted. -/
theorem exists_checkAndStore_iff (word : ControlWord → BitVec 32) :
    (∃ r, checkAndStore rdmsr word = .ok r) ↔ BasicAccepted rdmsr := by
  unfold checkAndStore BasicAccepted
  simp only [panicIf_bind_eq_ok, decide_eq_false_iff_not, not_lt, not_not, exists_and_left]
  exact and_congr_right fun _ => and_iff_left ⟨_, rfl⟩

/-- It does not panic with the text of the adjuster. -/
theorem checkAndStore_ne_minimumPanic (word : ControlWord → BitVec 32) :
    checkAndStore rdmsr word ≠ .error (.panic minimumPanic) := by
  have hstep : ∀ (msg : String) (cond : Bool) (f : Unit → Exec (VmcsConfig × VmxCapability)),
      msg ≠ minimumPanic → f () ≠ .error (.panic minimumPanic) →
        (panicIf msg cond >>= f) ≠ .error (.panic minimumPanic) := by
    intro msg cond f hmsg hf
    cases cond with
    | false => exact hf
    | true => exact fun h => hmsg (Fault.panic.inj (Except.error.inj h))
  unfold checkAndStore
  exact hstep _ _ _ (by decide) (hstep _ _ _ (by decide) (fun h => by cases h))

end Setup

/-! ## What the processor demands -/

/-- The five words that are stored are what the processor demands, and the adjuster panics
exactly when it lacks a required bit. -/
structure ControlsRespected (rdmsr : BitVec 32 → BitVec 64) : Prop where
  words : ∀ config cap, setupVmcsConfig rdmsr = .ok (config, cap) →
    ∀ w : ControlWord, RespectsCapability (rdmsr w.msr) w.ctlMin (w.stored config)
  panics : setupVmcsConfig rdmsr = .error (.panic minimumPanic) ↔
    ∃ w : ControlWord, ¬w.Allowed rdmsr

/-- The same but for the two bits that the primary word is stored without. -/
structure ControlsAdjusted (rdmsr : BitVec 32 → BitVec 64) : Prop where
  words : ∀ config cap, setupVmcsConfig rdmsr = .ok (config, cap) →
    ∀ w : ControlWord, RespectsBut w.cleared (rdmsr w.msr) w.ctlMin (w.stored config)
  panics : setupVmcsConfig rdmsr = .error (.panic minimumPanic) ↔
    ∃ w : ControlWord, ¬w.Allowed rdmsr

/-- The processor has what is required, and its VMCS region is accepted. -/
def SetupAccepts (rdmsr : BitVec 32 → BitVec 64) : Prop :=
  (∀ w : ControlWord, w.Allowed rdmsr) ∧ BasicAccepted rdmsr

section Respected

variable {rdmsr : BitVec 32 → BitVec 64}

/-- The adjuster panics exactly when a required bit is not allowed. -/
theorem setup_panics_iff (hcap : ∀ w : ControlWord, Consistent (rdmsr w.msr)) :
    setupVmcsConfig rdmsr = .error (.panic minimumPanic) ↔ ∃ w : ControlWord, ¬w.Allowed rdmsr := by
  constructor
  · intro h
    by_contra hall
    push Not at hall
    rw [setup_of_allowed hcap hall] at h
    exact checkAndStore_ne_minimumPanic _ h
  · rintro ⟨w, hw⟩
    exact setup_of_not_allowed hcap hw

/-- It returns exactly when the processor is accepted, with the words of the adjuster but for
the bits that are cleared. -/
theorem setup_eq_ok (hcap : ∀ w : ControlWord, Consistent (rdmsr w.msr)) {config : VmcsConfig}
    {cap : VmxCapability} (h : setupVmcsConfig rdmsr = .ok (config, cap)) (w : ControlWord) :
    w.Allowed rdmsr ∧ w.stored config = adjustedWord rdmsr w &&& ~~~w.cleared := by
  by_cases hall : ∀ w : ControlWord, w.Allowed rdmsr
  · rw [setup_of_allowed hcap hall] at h
    exact ⟨hall w, stored_of_checkAndStore h w⟩
  · obtain ⟨w', hw'⟩ := not_forall.mp hall
    rw [setup_of_not_allowed hcap hw'] at h
    cases h

/-- No required bit is cleared after the adjustment. -/
theorem ControlWord.ctlMin_and_cleared (w : ControlWord) : w.ctlMin &&& w.cleared = 0#32 := by
  cases w <;> decide

/-- Every word that is stored is what the processor demands but for the bits that are cleared. -/
theorem respectsBut_stored (hcap : ∀ w : ControlWord, Consistent (rdmsr w.msr))
    {config : VmcsConfig} {cap : VmxCapability}
    (h : setupVmcsConfig rdmsr = .ok (config, cap)) (w : ControlWord) :
    RespectsBut w.cleared (rdmsr w.msr) w.ctlMin (w.stored config) := by
  obtain ⟨hmin, hstored⟩ := setup_eq_ok hcap h w
  rw [hstored]
  exact respectsBut_cleared (respects_adjusted (hcap w) hmin) w.ctlMin_and_cleared

/-- All words are what the processor demands exactly when the primary one does not lack a bit
that is cleared: from the others nothing is. -/
theorem respects_stored_iff (hcap : ∀ w : ControlWord, Consistent (rdmsr w.msr))
    {config : VmcsConfig} {cap : VmxCapability}
    (h : setupVmcsConfig rdmsr = .ok (config, cap)) :
    (∀ w : ControlWord, RespectsCapability (rdmsr w.msr) w.ctlMin (w.stored config)) ↔
      allowed0 (rdmsr ControlWord.cpuBased.msr) &&& clearedControls = 0#32 := by
  have hiff (w : ControlWord) := (respectsBut_stored hcap h w).respects_iff
  refine ⟨fun hr => (hiff .cpuBased).mp (hr .cpuBased), fun hclear w => (hiff w).mpr ?_⟩
  cases w with
  | cpuBased => exact hclear
  | _ => exact BitVec.and_zero

end Respected

/-- **The control words** are what the processor demands, but that `setup_vmcs_config` clears
two bits of the primary one after the adjuster; the adjuster panics exactly when a required bit
is not allowed. So all bits that must be one are there exactly when the processor does not say it
of one of the two, or where no word is stored because the processor is not accepted. -/
theorem controls_respected_iff (rdmsr : BitVec 32 → BitVec 64)
    (hcap : ∀ w : ControlWord, Consistent (rdmsr w.msr)) :
    ControlsAdjusted rdmsr ∧
      (ControlsRespected rdmsr ↔
        (SetupAccepts rdmsr →
          allowed0 (rdmsr ControlWord.cpuBased.msr) &&& clearedControls = 0#32)) := by
  refine ⟨⟨fun _ _ hok => respectsBut_stored hcap hok, setup_panics_iff hcap⟩, ?_⟩
  constructor
  · rintro hr ⟨hall, hbasic⟩
    obtain ⟨⟨config, cap⟩, hok⟩ := (exists_checkAndStore_iff (adjustedWord rdmsr)).mpr hbasic
    rw [← setup_of_allowed hcap hall] at hok
    exact (respects_stored_iff hcap hok).mp (hr.words config cap hok)
  · intro hbits
    refine ⟨fun config cap hok => ?_, setup_panics_iff hcap⟩
    have hall : ∀ w : ControlWord, w.Allowed rdmsr := fun w => (setup_eq_ok hcap hok w).1
    have hbasic : BasicAccepted rdmsr :=
      (exists_checkAndStore_iff (adjustedWord rdmsr)).mp
        ⟨_, (setup_of_allowed hcap hall).symm.trans hok⟩
    exact (respects_stored_iff hcap hok).mpr (hbits ⟨hall, hbasic⟩)

/-- On a processor that may clear the two bits, the words are what it demands. -/
theorem controls_respected_of_clearable :
    ControlsRespected (Function.update vmxHost.msrs 0x482#32 0xffffffff04006172#64) := by
  refine (controls_respected_iff _ fun w => ?_).2.mpr fun _ => by decide
  cases w <;> decide

/-- Where the capability MSR has all of the reserved controls, the primary word that is stored
lacks `CPU_BASED_CR3_STORE_EXITING`, which must be one. -/
theorem not_controlsRespected_vmxHost :
    (∀ w : ControlWord, Consistent (vmxHost.msrs w.msr)) ∧ ¬ControlsRespected vmxHost.msrs := by
  have hcap : ∀ w : ControlWord, Consistent (vmxHost.msrs w.msr) := fun w => by
    cases w <;> decide
  have hall : ∀ w : ControlWord, w.Allowed vmxHost.msrs := fun w => by
    cases w <;> decide
  have hbasic : BasicAccepted vmxHost.msrs := ⟨by decide, by decide⟩
  refine ⟨hcap, fun hr => ?_⟩
  obtain ⟨⟨config, cap⟩, hok⟩ := (exists_checkAndStore_iff (adjustedWord _)).mpr hbasic
  rw [← setup_of_allowed hcap hall] at hok
  have hbits := (respects_stored_iff hcap hok).mp (hr.words config cap hok)
  exact absurd hbits (by decide)

end Lvisor
