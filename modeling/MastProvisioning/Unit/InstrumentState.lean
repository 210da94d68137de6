import Mathlib.Data.List.Infix
import MastProvisioning.Unit.InstrumentProfiles

/-!
# Per-unit instrument state survives

No history of the three scripts changes what a unit has of its own: its settings
files outside the serial ports, the ports that are present, and its PHD2 profiles.
The sentinel stands only for a unit that was applied in full, as long as no import is
cut off between its first and its last setting: what that leaves counts as existing
profiles for the next run.
-/

namespace MastProvisioning.Unit.InstrumentProfiles

open Collections PowerShell PowerShell.SettingsFile Semantics

/-- A folder has every file another one has, unchanged. -/
def Keeps (live after : Folder) : Prop :=
  ∀ name text, live.read? name = some text → after.read? name = some text

/-- What one step keeps of a unit. -/
structure Survives (unit : Profiles) (event : Event) : Prop where
  /-- A settings file changes in its `SerialPort` lines at most. -/
  otherLines : ∀ name text, unit.live.read? name = some text →
    ∃ now, (next unit event).live.read? name = some now ∧
      otherLines serialPort now = otherLines serialPort text
  profile : ∀ name, (∃ entry ∈ unit.phd2, entry.profile = name) →
    (next unit event).phd2.filter (fun entry => entry.profile = name) =
      unit.phd2.filter fun entry => entry.profile = name
  /-- A port that is present at a calibration keeps its instrument. -/
  port : ∀ run, event = .calibrate run → ∀ name text value, unit.live.read? name = some text →
    effectiveValue serialPort text = some value →
    (presentPorts run.devices).any (sameText value) = true →
    ∃ now, (next unit event).live.read? name = some now ∧
      effectiveValue serialPort now = some value
  /-- The calibration after one that wrote, with the same devices, writes nothing. -/
  settled : ∀ run, event = .calibrate run → writes unit.live run = true →
    ∀ again : Calibration, again.devices = run.devices → again.force = false →
      writes (next unit event).live again = false
  /-- The sentinel is written over live templates and whole profiles. -/
  marked : unit.staging.applied = false → (next unit event).staging.applied = true →
    (∀ template ∈ unit.staging.cfgs.files,
      (next unit event).live.read? template.1 = some template.2 ∨
        (unit.live.read? template.1).isSome = true) ∧
    (unit.phd2 ≠ [] ∧ unit.imported = .never ∨ (next unit event).imported = .finished)

/-- The text of a file a plan rewrites is ASCII outside the values replaced. -/
def TargetPlan.ascii (live : Folder) (plan : TargetPlan) : Bool :=
  match live.read? plan.cfgFile with
  | some text => asciiOutsideValues serialPort text
  | none => true

theorem TargetPlan.ascii_of_read {live : Folder} {plan : TargetPlan} {text : Text}
    (found : live.read? plan.cfgFile = some text) :
    plan.ascii live = asciiOutsideValues serialPort text := by
  rw [TargetPlan.ascii, found]

/-- Nothing is lost at a step: an import is not cut off between its first and its last
setting, and a file whose port is rewritten is ASCII outside the ports. -/
def Careful (unit : Profiles) : Event → Prop
  | .apply (.importing entries) =>
    unit.staging.applied = true ∨ unit.phd2 ≠ [] ∨ entries = 0 ∨
      (unit.staging.reg.getD []).length ≤ entries
  | .calibrate run =>
    writes unit.live run = true →
      ∀ plan ∈ newPlan unit.live run, plan.willWrite = true → plan.ascii unit.live = true
  | _ => True

instance (unit : Profiles) : DecidablePred (Careful unit)
  | .apply (.importing _) => inferInstanceAs (Decidable (_ ∨ _ ∨ _ ∨ _))
  | .calibrate _ => inferInstanceAs (Decidable (_ → _))
  | .provide _ _ _ | .sentinelLost => .isTrue trivial
  | .apply (.copying _ _) | .apply .marking | .apply .never => .isTrue trivial

instance (unit : Profiles) : DecidablePred (profiles.Enabled unit)
  | .apply _ => inferInstanceAs (Decidable (_ = true))
  | .calibrate _ => inferInstanceAs (Decidable (_ = false))
  | .provide _ _ _ | .sentinelLost => .isTrue trivial

/-- What holds of a unit after every careful history. -/
structure Sound (unit : Profiles) : Prop where
  complete : unit.staging.applyScript = true → unit.staging.reg.isSome = true
  nothingPartial : unit.imported = .unfinished → unit.phd2 = []

section Staged

/-- What the unit keeps of its staging, whatever is written there. -/
theorem perform_applied (staging : Staging) (writes : List StagingWrite) :
    (writes.foldl Staging.perform staging).applied = staging.applied := by
  induction writes generalizing staging with
  | nil => rfl
  | cons write rest ih =>
    rw [List.foldl_cons, ih]
    cases write <;> rfl

theorem perform_reg (staging : Staging) (writes : List StagingWrite)
    (staged : staging.reg.isSome = true ∨ ∃ entries, .reg entries ∈ writes) :
    (writes.foldl Staging.perform staging).reg.isSome = true := by
  induction writes generalizing staging with
  | nil =>
    rcases staged with here | ⟨_, member⟩
    · exact here
    · cases member
  | cons write rest ih =>
    rw [List.foldl_cons]
    refine ih _ ?_
    rcases staged with here | ⟨entries, member⟩
    · exact .inl (by cases write <;> first | exact here | rfl)
    · rcases List.mem_cons.mp member with rfl | later
      · exact .inl rfl
      · exact .inr ⟨entries, later⟩

theorem perform_applyScript (staging : Staging) {writes : List StagingWrite}
    (absent : .applyScript ∉ writes) :
    (writes.foldl Staging.perform staging).applyScript = staging.applyScript := by
  induction writes generalizing staging with
  | nil => rfl
  | cons write rest ih =>
    rw [List.mem_cons, not_or] at absent
    rw [List.foldl_cons, ih _ absent.2]
    cases write with
    | cfg => rfl
    | reg => rfl
    | applyScript => exact absurd rfl absent.1

theorem mem_writeCfg {name : String} {text : Text} {write : StagingWrite}
    (member : write ∈ writeCfg name text) : ∃ part, write = .cfg name part := by
  obtain ⟨part, -, rfl⟩ := List.mem_map.mp member
  exact ⟨part, rfl⟩

theorem applyScript_not_mem_expandArchive (bundle : Bundle) :
    .applyScript ∉ expandArchive bundle := by
  intro member
  rcases List.mem_append.mp member with inCfgs | inReg
  · obtain ⟨file, -, inFile⟩ := List.mem_flatMap.mp inCfgs
    obtain ⟨part, impossible⟩ := mem_writeCfg inFile
    cases impossible
  · obtain ⟨part, -, impossible⟩ := List.mem_map.mp inReg
    cases impossible

theorem reg_mem_expandArchive (bundle : Bundle) :
    ∃ entries, StagingWrite.reg entries ∈ expandArchive bundle :=
  ⟨bundle.reg, List.mem_append_right _ (List.mem_map_of_mem ((List.mem_inits _ _).mpr List.prefix_rfl))⟩

/-- However a run is cut off, the apply script is staged only beside the profiles. -/
theorem provide_complete {unit : Profiles} (bundle : Bundle) (site : Option Site)
    (cut : Option Nat)
    (complete : unit.staging.applyScript = true → unit.staging.reg.isSome = true) :
    (provide unit bundle site cut).staging.applyScript = true →
      (provide unit bundle site cut).staging.reg.isSome = true := by
  intro staged
  obtain ⟨rest, shape⟩ : ∃ rest, provideWrites unit.staging bundle site =
      expandArchive bundle ++ rest := ⟨_, rfl⟩
  have whole : ∀ rest, ((expandArchive bundle ++ rest).foldl Staging.perform
      unit.staging).reg.isSome = true := by
    intro rest
    obtain ⟨entries, member⟩ := reg_mem_expandArchive bundle
    exact perform_reg _ _ (.inr ⟨entries, List.mem_append_left _ member⟩)
  unfold provide at staged ⊢
  cases cut with
  | none =>
    rw [upTo, shape]
    exact whole rest
  | some count =>
    rw [upTo, shape] at staged ⊢
    by_cases within : count ≤ (expandArchive bundle).length
    · rw [List.take_append_of_le_length within] at staged ⊢
      refine perform_reg _ _ (.inl (complete ?_))
      rw [← perform_applyScript unit.staging fun member =>
        applyScript_not_mem_expandArchive bundle (List.mem_of_mem_take member)]
      exact staged
    · rw [List.take_append, List.take_of_length_le (by omega)]
      exact whole _

end Staged

section Applied

theorem keeps_refl (live : Folder) : Keeps live live :=
  fun _ _ found => found

theorem Keeps.trans {first second third : Folder} (earlier : Keeps first second)
    (later : Keeps second third) : Keeps first third :=
  fun name text found => later name text (earlier name text found)

theorem keeps_copyTemplate (live : Folder) (template : String × Text) :
    Keeps live (copyTemplate live template) := by
  intro name text found
  unfold copyTemplate
  cases present : live.read? template.1 with
  | some _ => exact found
  | none =>
    simp only [Folder.read?_write]
    split
    · rename_i same
      have absent : live.read? name = none := by
        rw [← present]
        exact congrArg (Option.map Prod.snd) (OrderedDict.find?_congr same).symm
      rw [absent] at found
      cases found
    · exact found

theorem keeps_copyTemplates (live : Folder) (templates : List (String × Text)) :
    Keeps live (copyTemplates live templates) := by
  induction templates generalizing live with
  | nil => exact keeps_refl live
  | cons template rest ih => exact (keeps_copyTemplate live template).trans (ih _)

theorem keeps_copySome (live : Folder) (templates : List (String × Text)) (done : Nat)
    (part : Option Nat) : Keeps live (copySome live templates done part) := by
  unfold copySome
  split
  · exact (keeps_copyTemplates live _).trans (keeps_copyTemplate _ _)
  · exact keeps_copyTemplates live _

theorem copyTemplate_live (live : Folder) (template : String × Text) :
    (copyTemplate live template).read? template.1 = some template.2 ∨
      (live.read? template.1).isSome = true := by
  unfold copyTemplate
  cases live.read? template.1 with
  | some _ => exact .inr rfl
  | none => exact .inl (by rw [Folder.read?_write, if_pos rfl])

/-- After a whole loop each template is live in full, or was live before. -/
theorem copyTemplates_live (live : Folder) {templates : List (String × Text)}
    (distinct : OrderedDict.Distinct foldCase templates) :
    ∀ template ∈ templates, (copyTemplates live templates).read? template.1 = some template.2 ∨
      (live.read? template.1).isSome = true := by
  induction templates generalizing live with
  | nil => simp
  | cons first rest ih =>
    obtain ⟨fresh, distinctRest⟩ := List.nodup_cons.mp distinct
    refine List.forall_mem_cons.mpr ⟨?_, fun template member => ?_⟩
    · exact (copyTemplate_live live first).imp_left
        (keeps_copyTemplates (copyTemplate live first) rest _ _)
    · refine (ih (copyTemplate live first) distinctRest template member).imp_right fun found => ?_
      unfold copyTemplate at found
      split at found
      · exact found
      · have other : foldCase first.1 ≠ foldCase template.1 := fun same =>
          fresh (List.mem_map.mpr ⟨template, member, same.symm⟩)
        rwa [Folder.read?_write, if_neg other] at found

theorem importReg_live (unit : Profiles) (entries : Option Nat) :
    (importReg unit entries).live = unit.live := by
  unfold importReg
  split <;> rfl

theorem importReg_staging (unit : Profiles) (entries : Option Nat) :
    (importReg unit entries).staging = unit.staging := by
  unfold importReg
  split <;> rfl

/-- What an import comes to: nothing, or the file's settings from the first on. -/
theorem importReg_cases (unit : Profiles) (entries : Option Nat) :
    (importReg unit entries = unit ∧ (unit.phd2 ≠ [] ∨ unit.staging.reg = none)) ∨
      ∃ reg, unit.phd2 = [] ∧ unit.staging.reg = some reg ∧
        (importReg unit entries).phd2 = reg.take (entries.getD reg.length) ∧
        (importReg unit entries).imported =
          if entries.getD reg.length < reg.length then .unfinished else .finished := by
  unfold importReg
  split
  · rename_i reg none staged
    exact .inr ⟨reg, none, staged, rfl, rfl⟩
  · rename_i other
    refine .inl ⟨rfl, ?_⟩
    by_contra both
    rw [not_or, not_not] at both
    obtain ⟨reg, staged⟩ := Option.ne_none_iff_exists'.mp both.2
    exact other reg both.1 staged

/-- Existing profiles are kept as they are. -/
theorem importReg_existing {unit : Profiles} (existing : unit.phd2 ≠ []) (entries : Option Nat) :
    importReg unit entries = unit := by
  unfold importReg
  split
  · rename_i none _
    exact absurd none existing
  · rfl

/-- What a run of the apply script comes to. -/
theorem applyProfiles_cases (unit : Profiles) (cut : ApplyCut) :
    applyProfiles unit cut = unit ∨
      (∃ templates part, applyProfiles unit cut =
        { unit with live := copySome unit.live unit.staging.cfgs.files templates part }) ∨
      (∃ entries, applyProfiles unit cut = importReg (copied unit) entries) ∨
      applyProfiles unit cut = writeSentinel (importReg (copied unit) none) := by
  unfold applyProfiles
  split
  · exact .inl rfl
  · cases cut with
    | copying templates part => exact .inr (.inl ⟨templates, part, rfl⟩)
    | importing entries => exact .inr (.inr (.inl ⟨some entries, rfl⟩))
    | marking => exact .inr (.inr (.inl ⟨none, rfl⟩))
    | never => exact .inr (.inr (.inr rfl))

theorem applyProfiles_live (unit : Profiles) (cut : ApplyCut) :
    Keeps unit.live (applyProfiles unit cut).live := by
  have imported : ∀ entries, Keeps unit.live (importReg (copied unit) entries).live := by
    intro entries
    rw [importReg_live]
    exact keeps_copyTemplates _ _
  rcases applyProfiles_cases unit cut with same | ⟨templates, part, same⟩ | ⟨entries, same⟩ | same
  · rw [same]
    exact keeps_refl _
  · rw [same]
    exact keeps_copySome _ _ _ _
  · rw [same]
    exact imported entries
  · rw [same]
    exact imported none

theorem applyProfiles_phd2 {unit : Profiles} (existing : unit.phd2 ≠ []) (cut : ApplyCut) :
    (applyProfiles unit cut).phd2 = unit.phd2 := by
  have kept : ∀ entries, importReg (copied unit) entries = copied unit :=
    importReg_existing (show (copied unit).phd2 ≠ [] from existing)
  rcases applyProfiles_cases unit cut with same | ⟨templates, part, same⟩ | ⟨entries, same⟩ | same
  · rw [same]
  · rw [same]
  · rw [same, kept]
    rfl
  · rw [same, kept]
    rfl

/-- A whole import leaves nothing unfinished. -/
theorem importReg_whole {unit : Profiles} (nothingPartial : unit.imported = .unfinished → unit.phd2 = [])
    (unfinished : (importReg unit none).imported = .unfinished) :
    (importReg unit none).phd2 = [] := by
  rcases importReg_cases unit none with ⟨same, -⟩ | ⟨reg, -, -, -, became⟩
  · rw [same] at unfinished ⊢
    exact nothingPartial unfinished
  · rw [became, Option.getD_none, if_neg (Nat.lt_irrefl _)] at unfinished
    cases unfinished

/-- A run that is cut off inside its import leaves nothing of it or all of it. -/
theorem applyProfiles_partial {unit : Profiles} {cut : ApplyCut}
    (nothingPartial : unit.imported = .unfinished → unit.phd2 = [])
    (careful : Careful unit (.apply cut))
    (unfinished : (applyProfiles unit cut).imported = .unfinished) :
    (applyProfiles unit cut).phd2 = [] := by
  have nothing : (copied unit).imported = .unfinished → (copied unit).phd2 = [] := nothingPartial
  unfold applyProfiles at unfinished ⊢
  split
  · rename_i applied
    rw [if_pos applied] at unfinished
    exact nothingPartial unfinished
  · rename_i notApplied
    rw [if_neg notApplied] at unfinished
    cases cut with
    | copying templates part => exact nothingPartial unfinished
    | marking => exact importReg_whole nothing unfinished
    | never => exact importReg_whole nothing unfinished
    | importing entries =>
      rcases importReg_cases (copied unit) (some entries) with ⟨same, -⟩ |
        ⟨reg, none, staged, phd2, became⟩
      · simp only [same] at unfinished ⊢
        exact nothing unfinished
      · rcases careful with applied | existing | first | whole
        · exact absurd applied notApplied
        · exact absurd none existing
        · exact phd2.trans (by rw [first]; rfl)
        · have length : reg.length ≤ entries := by
            rwa [show unit.staging.reg = some reg from staged] at whole
          simp only [became, Option.getD_some] at unfinished
          rw [if_neg (by omega)] at unfinished
          cases unfinished

/-- The sentinel is written over live templates and whole profiles. -/
theorem applyProfiles_marked {unit : Profiles} {cut : ApplyCut} (sound : Sound unit)
    (staged : unit.staging.applyScript = true) (fresh : unit.staging.applied = false)
    (marked : (applyProfiles unit cut).staging.applied = true) :
    (∀ template ∈ unit.staging.cfgs.files,
      (applyProfiles unit cut).live.read? template.1 = some template.2 ∨
        (unit.live.read? template.1).isSome = true) ∧
    (unit.phd2 ≠ [] ∧ unit.imported = .never ∨ (applyProfiles unit cut).imported = .finished) := by
  have unmarked : ∀ other : Profiles, other.staging = unit.staging →
      other.staging.applied = false := fun other same => same ▸ fresh
  have result : applyProfiles unit cut = writeSentinel (importReg (copied unit) none) := by
    rcases applyProfiles_cases unit cut with same | ⟨_, _, same⟩ | ⟨entries, same⟩ | same
    · rw [same, fresh] at marked
      cases marked
    · rw [same, fresh] at marked
      cases marked
    · rw [same, unmarked _ (importReg_staging (copied unit) entries)] at marked
      cases marked
    · exact same
  rw [result]
  constructor
  · show ∀ template ∈ unit.staging.cfgs.files,
      (importReg (copied unit) none).live.read? template.1 = some template.2 ∨ _
    rw [importReg_live]
    exact copyTemplates_live unit.live unit.staging.cfgs.distinct
  · rcases importReg_cases (copied unit) none with ⟨same, existing | missing⟩ |
      ⟨reg, -, -, -, became⟩
    · cases became : unit.imported with
      | never => exact .inl ⟨existing, rfl⟩
      | unfinished => exact absurd (sound.nothingPartial became) existing
      | finished =>
        refine .inr ?_
        show (importReg (copied unit) none).imported = .finished
        rw [same]
        exact became
    · have present := sound.complete staged
      rw [show unit.staging.reg = none from missing] at present
      cases present
    · refine .inr (became.trans ?_)
      rw [Option.getD_none, if_neg (Nat.lt_irrefl _)]

end Applied

section Calibrated

theorem isKey_serialPort : IsKey serialPort :=
  ⟨⟨'S', "erialPort".toList, by decide, by decide⟩,
    List.all_iff_forall_prop.mp (by decide), by decide⟩

/-- The name of a port is a value, and not empty. -/
theorem getCom_isValue {device : Device} {com : Text} (found : getCom device = some com) :
    IsValue com ∧ com ≠ [] := by
  obtain ⟨suffix, -, here⟩ := List.exists_of_findSome?_eq_some found
  unfold comAt at here
  split at here
  · rename_i rest
    split at here
    · rename_i word after matched
      split at here
      · rename_i digit digits _ taken closed
        obtain rfl := Option.some.inj here
        have letters := toLower_of_matchWord (matchWord_eq_some.mp matched).2
        have isWord : IsValue word :=
          IsValue.ofSame ⟨List.all_iff_forall_prop.mp (by decide), by decide⟩ letters
        have isDigits : ∀ symbol ∈ digit :: digits, symbol.isDigit = true := by
          intro symbol member
          rw [← taken] at member
          exact List.mem_takeWhile_imp member
        have bounds : ∀ symbol ∈ digit :: digits, 48 ≤ symbol.toNat ∧ symbol.toNat ≤ 57 := by
          intro symbol member
          have isDigit := isDigits symbol member
          simp only [Char.isDigit, Bool.and_eq_true, decide_eq_true_eq] at isDigit
          exact isDigit
        refine ⟨⟨?_, ?_⟩, by simp⟩
        · intro symbol member
          rcases List.mem_append.mp member with inWord | inDigits
          · exact isWord.visible symbol inWord
          · have between := bounds symbol inDigits
            exact isSpace_of_visible (by omega) (by omega)
        · rw [List.all_append, isWord.ascii, Bool.true_and]
          refine List.all_eq_true.mpr fun symbol inDigits => ?_
          have between := bounds symbol inDigits
          exact decide_eq_true (by omega)
      · cases here
    · cases here
  · cases here

theorem efaCom_isValue {devices : List Device} {com : Text} (found : efaCom devices = some com) :
    IsValue com := by
  unfold efaCom at found
  split at found
  · exact (getCom_isValue found).1
  · cases found

theorem pwbusCom_isValue {devices : List Device} {com : Text}
    (found : pwbusCom devices = some com) : IsValue com := by
  obtain ⟨device, -, here⟩ := Option.bind_eq_some_iff.mp found
  exact (getCom_isValue here).1

/-- A value that names a port that is present is one, and not empty. -/
theorem present_isValue {devices : List Device} {value : Text}
    (present : (presentPorts devices).any (sameText value) = true) :
    IsValue value ∧ value ≠ [] := by
  obtain ⟨port, member, same⟩ := List.any_eq_true.mp present
  obtain ⟨device, -, found⟩ := List.mem_filterMap.mp member
  have folded : value.map Char.toLower = port.map Char.toLower := eq_of_beq same
  obtain ⟨isValue, nonempty⟩ := getCom_isValue found
  refine ⟨isValue.ofSame folded, ?_⟩
  rintro rfl
  exact nonempty (List.map_eq_nil_iff.mp folded.symm)

/-- When a plan writes: a file and a device are there, the file does not name the
device's port, and it names no port that is present, or the run is forced. -/
theorem willWrite_iff {live : Folder} {file : String} {desired : Option Text} {doForce : Bool}
    {present : List Text} :
    (getTargetPlan live file desired doForce present).willWrite = true ↔
      ∃ text com, live.read? file = some text ∧ desired = some com ∧
        sameText ((lastValue serialPort text).getD []) com = false ∧
        ((lastValue serialPort text).getD [] = [] ∨
          present.any (sameText ((lastValue serialPort text).getD [])) = false ∨
            doForce = true) := by
  have byAction : (getTargetPlan live file desired doForce present).willWrite = true ↔
      targetAction (live.read? file) desired doForce present = .wouldBind := beq_iff_eq
  rw [byAction]
  cases live.read? file with
  | none => simp [targetAction]
  | some text =>
    cases desired with
    | none => simp [targetAction]
    | some com =>
      generalize current : (lastValue serialPort text).getD [] = value
      simp only [targetAction, current]
      split
      · rename_i same
        simp [current, same]
      · rename_i different
        split
        · rename_i preserved
          rw [Bool.and_eq_true, Bool.and_eq_true, decide_eq_true_eq, Bool.not_eq_true'] at preserved
          refine ⟨fun impossible => (nomatch impossible), ?_⟩
          rintro ⟨_, _, isText, -, -, allowed⟩
          obtain rfl := Option.some.inj isText
          rw [current, preserved.1.2, preserved.2] at allowed
          simp [preserved.1.1] at allowed
        · rename_i notPreserved
          rw [Bool.and_eq_true, Bool.and_eq_true, decide_eq_true_eq, Bool.not_eq_true',
            not_and_or, not_and_or, not_not, Bool.not_eq_true, Bool.not_eq_false] at notPreserved
          simpa [current, different, or_assoc] using notPreserved

/-- A plan only writes a port's name. -/
theorem willWrite_isValue {live : Folder} {run : Calibration} {plan : TargetPlan}
    (member : plan ∈ newPlan live run) (writing : plan.willWrite = true) :
    IsValue plan.desired := by
  rcases List.mem_cons.mp member with rfl | member
  · obtain ⟨_, com, -, found, -⟩ := willWrite_iff.mp writing
    show IsValue ((efaCom run.devices).getD [])
    rw [found]
    exact efaCom_isValue found
  · rcases List.mem_singleton.mp member with rfl
    obtain ⟨_, com, -, found, -⟩ := willWrite_iff.mp writing
    show IsValue ((pwbusCom run.devices).getD [])
    rw [found]
    exact pwbusCom_isValue found

theorem read?_invoke (live : Folder) (plan : TargetPlan) (name : String) :
    (invoke live plan).read? name =
      if foldCase plan.cfgFile = foldCase name then
        (live.read? name).map (setCfgField serialPort plan.desired)
      else live.read? name := by
  unfold invoke
  split
  · rename_i text found
    rw [Folder.read?_write]
    split
    · rename_i same
      have other : live.read? name = some text := by
        rw [← found]
        exact congrArg (Option.map Prod.snd) (OrderedDict.find?_congr same).symm
      rw [other]
      rfl
    · rfl
  · rename_i missing
    split
    · rename_i same
      have other : live.read? name = none := by
        rw [← missing]
        exact congrArg (Option.map Prod.snd) (OrderedDict.find?_congr same).symm
      rw [other]
      rfl
    · rfl

/-- Among plans for different files, a file is rewritten by the plan for it, or left
as it was. -/
theorem read?_invokePlan {plans : List TargetPlan}
    (apart : plans.Pairwise fun plan other => foldCase plan.cfgFile ≠ foldCase other.cfgFile)
    (live : Folder) (name : String) :
    (∃ plan ∈ plans, plan.willWrite = true ∧ foldCase plan.cfgFile = foldCase name ∧
      (invokePlan live plans).read? name =
        (live.read? name).map (setCfgField serialPort plan.desired)) ∨
    (∀ plan ∈ plans, foldCase plan.cfgFile = foldCase name → plan.willWrite = false) ∧
      (invokePlan live plans).read? name = live.read? name := by
  induction plans generalizing live with
  | nil => exact .inr ⟨by simp, rfl⟩
  | cons plan rest ih =>
    obtain ⟨others, apartRest⟩ := List.pairwise_cons.mp apart
    by_cases writing : plan.willWrite = true
    · have step : invokePlan live (plan :: rest) = invokePlan (invoke live plan) rest := by
        rw [invokePlan, List.filter_cons_of_pos writing]
        rfl
      rw [step]
      by_cases same : foldCase plan.cfgFile = foldCase name
      · have here : (invoke live plan).read? name =
            (live.read? name).map (setCfgField serialPort plan.desired) := by
          rw [read?_invoke, if_pos same]
        refine .inl ⟨plan, List.mem_cons_self, writing, same, ?_⟩
        rcases ih apartRest (invoke live plan) with ⟨other, member, -, otherSame, -⟩ | ⟨-, kept⟩
        · exact absurd (same.trans otherSame.symm) (others other member)
        · rw [kept, here]
      · have here : (invoke live plan).read? name = live.read? name := by
          rw [read?_invoke, if_neg same]
        rcases ih apartRest (invoke live plan) with ⟨other, member, rest⟩ | ⟨none, kept⟩
        · rw [here] at rest
          exact .inl ⟨other, List.mem_cons_of_mem _ member, rest⟩
        · exact .inr ⟨List.forall_mem_cons.mpr ⟨fun isSame => absurd isSame same, none⟩,
            kept.trans here⟩
    · have step : invokePlan live (plan :: rest) = invokePlan live rest := by
        rw [invokePlan, List.filter_cons_of_neg writing]
        rfl
      rw [step]
      rcases ih apartRest live with ⟨other, member, rest⟩ | ⟨none, kept⟩
      · exact .inl ⟨other, List.mem_cons_of_mem _ member, rest⟩
      · exact .inr ⟨List.forall_mem_cons.mpr ⟨fun _ => Bool.not_eq_true _ ▸ writing, none⟩, kept⟩

/-- The two targets have settings files of their own. -/
theorem newPlan_apart (live : Folder) (run : Calibration) :
    (newPlan live run).Pairwise fun plan other =>
      foldCase plan.cfgFile ≠ foldCase other.cfgFile := by
  refine List.pairwise_cons.mpr ⟨?_, List.pairwise_singleton _ _⟩
  intro other member
  rcases List.mem_singleton.mp member with rfl
  show foldCase "EFA.Controller_1.cfg" ≠ foldCase "PWBus.StandardOTA.Controller.cfg"
  decide +kernel

/-- A file that a calibration changes is rewritten by one of its plans. -/
theorem read?_calibrate (unit : Profiles) (run : Calibration) {name : String} {text : Text}
    (found : unit.live.read? name = some text) :
    (writes unit.live run = true ∧ ∃ plan ∈ newPlan unit.live run, plan.willWrite = true ∧
      unit.live.read? plan.cfgFile = some text ∧
      (calibrate unit run).live.read? name = some (setCfgField serialPort plan.desired text)) ∨
    (calibrate unit run).live.read? name = some text := by
  unfold calibrate
  split
  · rename_i writing
    rcases read?_invokePlan (newPlan_apart unit.live run) unit.live name with
      ⟨plan, member, planWrites, same, became⟩ | ⟨-, kept⟩
    · refine .inl ⟨writing, plan, member, planWrites, ?_, ?_⟩
      · rw [← found]
        exact congrArg (Option.map Prod.snd) (OrderedDict.find?_congr same)
      · exact became.trans (by rw [found]; rfl)
    · exact .inr (kept.trans found)
  · exact .inr found

/-- A rewrite leaves the lines of other keys. -/
theorem calibrate_otherLines {unit : Profiles} {run : Calibration}
    (careful : Careful unit (.calibrate run)) {name : String} {text : Text}
    (found : unit.live.read? name = some text) :
    ∃ now, (calibrate unit run).live.read? name = some now ∧
      otherLines serialPort now = otherLines serialPort text := by
  rcases read?_calibrate unit run found with
    ⟨writing, plan, member, planWrites, here, became⟩ | same
  · have ascii := careful writing plan member planWrites
    rw [TargetPlan.ascii_of_read here] at ascii
    exact ⟨_, became, otherLines_setCfgField isKey_serialPort
      (willWrite_isValue member planWrites) ascii⟩
  · exact ⟨text, same, rfl⟩

/-- Without `-Force`, no plan writes to a file whose port is present. -/
theorem not_willWrite_of_present {live : Folder} {run : Calibration} (unforced : run.force = false)
    {plan : TargetPlan} (member : plan ∈ newPlan live run) {text value : Text}
    (found : live.read? plan.cfgFile = some text)
    (effective : effectiveValue serialPort text = some value)
    (present : (presentPorts run.devices).any (sameText value) = true) :
    plan.willWrite = false := by
  obtain ⟨isValue, nonempty⟩ := present_isValue present
  have current : (lastValue serialPort text).getD [] = value := by
    rw [lastValue_of_effectiveValue effective isValue.visible]
    rfl
  have kept : ∀ (file : String) (desired : Option Text), live.read? file = some text →
      (getTargetPlan live file desired run.force (presentPorts run.devices)).willWrite = false := by
    intro file desired here
    rw [← Bool.not_eq_true, willWrite_iff]
    rintro ⟨other, com, isText, -, -, allowed⟩
    obtain rfl : text = other := Option.some.inj (here.symm.trans isText)
    rw [current, present, unforced] at allowed
    simp [nonempty] at allowed
  rcases List.mem_cons.mp member with rfl | member
  · exact kept _ _ found
  · rcases List.mem_singleton.mp member with rfl
    exact kept _ _ found

/-- After a calibration that wrote, no file is left for one with the same devices to
write: each target names its device, or had no reason to be written. -/
theorem calibrate_settled {unit : Profiles} {run again : Calibration}
    (careful : Careful unit (.calibrate run)) (unforced : run.force = false)
    (writing : writes unit.live run = true) (same : again.devices = run.devices)
    (unforcedAgain : again.force = false) :
    writes (calibrate unit run).live again = false := by
  have after : (calibrate unit run).live = invokePlan unit.live (newPlan unit.live run) := by
    rw [calibrate, if_pos writing]
  have settled : ∀ (file : String) (desired : Option Text),
      getTargetPlan unit.live file desired run.force (presentPorts run.devices) ∈
        newPlan unit.live run →
      (getTargetPlan (calibrate unit run).live file desired again.force
        (presentPorts again.devices)).willWrite = false := by
    intro file desired member
    rw [← Bool.not_eq_true, willWrite_iff, same, unforcedAgain, after]
    rintro ⟨text, com, found, isCom, different, allowed⟩
    rcases read?_invokePlan (newPlan_apart unit.live run) unit.live file with
      ⟨plan, inPlans, planWrites, isFile, became⟩ | ⟨none, kept⟩
    · have isPlan : plan = getTargetPlan unit.live file desired run.force
          (presentPorts run.devices) :=
        List.inj_on_of_nodup_map (List.pairwise_map.mpr (newPlan_apart unit.live run)) inPlans member
          isFile
      have planFile : plan.cfgFile = file := isPlan ▸ rfl
      have planDesired : plan.desired = com := by
        rw [isPlan, isCom]
        rfl
      rw [became] at found
      obtain ⟨source, isSource, rewritten⟩ := Option.map_eq_some_iff.mp found
      have ascii := careful writing plan inPlans planWrites
      rw [TargetPlan.ascii_of_read (planFile.symm ▸ isSource)] at ascii
      have isValue := willWrite_isValue inPlans planWrites
      rw [← rewritten, lastValue_setCfgField isKey_serialPort isValue ascii, planDesired] at different
      simp [sameText] at different
    · have writes : (getTargetPlan unit.live file desired run.force
          (presentPorts run.devices)).willWrite = true :=
        willWrite_iff.mpr ⟨text, com, kept ▸ found, isCom, different, unforced ▸ allowed⟩
      rw [none _ member rfl] at writes
      cases writes
  have noPlan : (newPlan (calibrate unit run).live again).any TargetPlan.willWrite = false := by
    refine List.any_eq_false.mpr fun plan member => ?_
    rw [Bool.not_eq_true]
    rcases List.mem_cons.mp member with rfl | member
    · rw [same]
      have first := settled "EFA.Controller_1.cfg" (efaCom run.devices) List.mem_cons_self
      rwa [same] at first
    · rcases List.mem_singleton.mp member with rfl
      have second := settled "PWBus.StandardOTA.Controller.cfg" (pwbusCom run.devices)
        (List.mem_cons_of_mem _ List.mem_cons_self)
      rw [same] at second ⊢
      exact second
  rw [writes, noPlan, Bool.and_false, Bool.false_and]

end Calibrated

section Histories

theorem starts_sound {unit : Profiles} (starts : Starts unit) : Sound unit where
  complete := starts.complete
  nothingPartial unfinished := by
    rw [starts.neverImported] at unfinished
    cases unfinished

theorem staging_complete_apply {unit : Profiles} (cut : ApplyCut)
    (complete : unit.staging.applyScript = true → unit.staging.reg.isSome = true) :
    (applyProfiles unit cut).staging.applyScript = true →
      (applyProfiles unit cut).staging.reg.isSome = true := by
  have kept := importReg_staging (copied unit)
  rcases applyProfiles_cases unit cut with same | ⟨_, _, same⟩ | ⟨entries, same⟩ | same
  · rw [same]
    exact complete
  · rw [same]
    exact complete
  · rw [same, kept entries]
    exact complete
  · rw [same]
    show (importReg (copied unit) none).staging.applyScript = true →
      (importReg (copied unit) none).staging.reg.isSome = true
    rw [kept none]
    exact complete

/-- Every careful step leaves the unit sound. -/
theorem sound_next (unit : Profiles) (event : Event) (sound : Sound unit)
    (careful : Careful unit event) : Sound (next unit event) := by
  cases event with
  | provide bundle site cut =>
    exact ⟨provide_complete bundle site cut sound.complete, sound.nothingPartial⟩
  | apply cut =>
    exact ⟨staging_complete_apply cut sound.complete,
      applyProfiles_partial sound.nothingPartial careful⟩
  | sentinelLost => exact ⟨sound.complete, sound.nothingPartial⟩
  | calibrate run =>
    show Sound (calibrate unit run)
    unfold calibrate
    split
    · exact ⟨sound.complete, sound.nothingPartial⟩
    · exact sound

/-- What one careful step keeps of a sound unit. -/
theorem survives_next (unit : Profiles) (event : Event) (sound : Sound unit)
    (careful : Careful unit event) (enabled : Enabled unit event) : Survives unit event := by
  cases event with
  | provide bundle site cut =>
    have applied : (provide unit bundle site cut).staging.applied = unit.staging.applied :=
      perform_applied unit.staging _
    exact {
      otherLines := fun name text found => ⟨text, found, rfl⟩
      profile := fun name existing => rfl
      port := fun run isRun => by cases isRun
      settled := fun run isRun => by cases isRun
      marked := fun fresh marked => by
        rw [show (next unit (.provide bundle site cut)).staging.applied = _ from applied,
          fresh] at marked
        cases marked }
  | apply cut =>
    exact {
      otherLines := fun name text found => ⟨text, applyProfiles_live unit cut name text found, rfl⟩
      profile := fun name existing => by
        obtain ⟨entry, member, -⟩ := existing
        rw [show (next unit (.apply cut)).phd2 = _ from
          applyProfiles_phd2 (List.ne_nil_of_mem member) cut]
      port := fun run isRun => by cases isRun
      settled := fun run isRun => by cases isRun
      marked := applyProfiles_marked sound enabled }
  | sentinelLost =>
    exact {
      otherLines := fun name text found => ⟨text, found, rfl⟩
      profile := fun name existing => rfl
      port := fun run isRun => by cases isRun
      settled := fun run isRun => by cases isRun
      marked := fun fresh marked => by cases marked }
  | calibrate run =>
    exact {
      otherLines := fun name text found => calibrate_otherLines careful found
      profile := fun name existing => by
        show (calibrate unit run).phd2.filter _ = _
        unfold calibrate
        split <;> rfl
      port := fun other isRun name text value found effective present => by
        obtain rfl : run = other := Event.calibrate.inj isRun
        rcases read?_calibrate unit run found with ⟨-, plan, member, planWrites, here, -⟩ | same
        · rw [not_willWrite_of_present enabled member here effective present] at planWrites
          cases planWrites
        · exact ⟨text, same, effective⟩
      settled := fun other isRun writing again same unforced => by
        obtain rfl : run = other := Event.calibrate.inj isRun
        exact calibrate_settled careful enabled writing same unforced
      marked := fun fresh marked => by
        have applied : (calibrate unit run).staging = unit.staging := by
          unfold calibrate
          split <;> rfl
        rw [show (next unit (.calibrate run)).staging = _ from applied, fresh] at marked
        cases marked }

/-- Templates for the focuser's controller, and one PHD2 profile of two settings. -/
def focuserBundle : Bundle where
  cfgs := Folder.write ⟨[], OrderedDict.distinct_nil⟩ "EFA.Controller_1.cfg"
    "Timeout = 5\r\nSerialPort = \r\n".toList
  reg := [⟨"1", "name", "MAST"⟩, ⟨"1", "exposure", "2.0"⟩]

/-- A unit before its first provisioning run. -/
def freshUnit : Profiles where
  staging := { cfgs := ⟨[], OrderedDict.distinct_nil⟩, reg := none, applyScript := false, applied := false }
  live := ⟨[], OrderedDict.distinct_nil⟩
  phd2 := []
  imported := .never

/-- A calibration of a unit with one generic adapter, on the port `COM5`. -/
def focuserCalibration : Calibration where
  devices := [⟨"USB\\VID_0403&PID_6001\\A1".toList, "USB Serial Port (COM5)".toList⟩]
  force := false
  dryRun := false
  pwi4Running := false

/-- A first logon that is cut off while it copies, a second one, and the calibration;
then the sentinel is lost and both are run again. -/
def lostSentinel : List Event :=
  [.provide focuserBundle none none, .apply (.copying 0 (some 3)), .apply .never,
    .calibrate focuserCalibration, .sentinelLost, .apply .never, .calibrate focuserCalibration]

/-- A first logon whose import is cut off after the first setting, and a second one. -/
def cutImport : List Event :=
  [.provide focuserBundle none none, .apply (.importing 1)]

end Histories

end MastProvisioning.Unit.InstrumentProfiles
