import Mathlib
import MastProvisioning.Build.ContentHash
import MastProvisioning.Driver.FinishedBuild

/-!
# What the parameters of a build re-run

The parameters of a build reach the units in the command lines of some modules, and the command
lines are among what a module hash is taken of. `parameters_rerun` says which modules a unit that
has everything from one build has to run again when the next one is made with other parameters.
-/

namespace MastProvisioning.Driver

open MastProvisioning.Collections MastProvisioning.PowerShell MastProvisioning.Build
open MastProvisioning.Unit

section Parameters

variable (fold : Char → Char) (tree : BuildTree) (first second : BuildParams) (name : String)

/-- Two builds give a module other arguments. -/
def ProvideDiffers : Prop :=
  if isNamed fold name "proxy" ∨ isNamed fold name "mast" then first.proxyMode ≠ second.proxyMode
  else if isNamed fold name "imdisk" then
    first.imdiskMountType ≠ second.imdiskMountType ∨ first.indexSetDigest ≠ second.indexSetDigest
  else if isNamed fold name "config-bootstrap" then first.site ≠ second.site
  else if isNamed fold name "timesync" then
    OrderedDict.get? (foldText fold) siteRpiNtp first.site ≠
      OrderedDict.get? (foldText fold) siteRpiNtp second.site
  else isNamed fold name "mast-validation" ∧ first.testMode ≠ second.testMode

/-- Two builds give the check of a module other arguments. -/
def VerifyDiffers : Prop :=
  (isNamed fold name "astrometry" ∨ isNamed fold name "usbpcap") ∧
    hasVerify fold tree name = true ∧ first.testMode ≠ second.testMode

end Parameters

section Tweaks

variable {fold : Char → Char} {collation : Collation} {tree : BuildTree}
  {first second : BuildParams} {name : String}

theorem length_of_isNamed {label : String} (named : isNamed fold name label = true) :
    name.toList.length = label.toList.length := by
  have lengths := congrArg (fun text : String => text.toList.length) (isNamed_iff.mp named)
  simpa [foldText] using lengths

/-- The names that the build looks for have lengths of their own. -/
theorem not_isNamed {label other : String} (named : isNamed fold name label = true)
    (lengths : label.toList.length ≠ other.toList.length) : isNamed fold name other = false := by
  rw [← Bool.not_eq_true]
  intro alike
  exact lengths ((length_of_isNamed named).symm.trans (length_of_isNamed alike))

/-- The mount type is told from the text that goes before the digest. -/
theorem mount_append_inj {mount mount' : MountType} {digest digest' : String}
    (same : (if mount = .vm then "" else " -MountType " ++ mount.text) ++ " -MinMemoryGB " ++
        toString requiredMemoryGB ++ " -IndexSetDigest " ++ digest =
      (if mount' = .vm then "" else " -MountType " ++ mount'.text) ++ " -MinMemoryGB " ++
        toString requiredMemoryGB ++ " -IndexSetDigest " ++ digest') :
    mount = mount' ∧ digest = digest' := by
  have inner : ∀ (type : MountType) (text : String),
      (((if type = .vm then "" else " -MountType " ++ type.text) ++ " -MinMemoryGB " ++
        toString requiredMemoryGB ++ " -IndexSetDigest " ++ text).toList[3]?) =
          some (if type = .vm then 'i' else 'o') := by
    intro type text
    cases type <;> simp [String.toList_append]
  have marks := congrArg (fun text : String => text.toList[3]?) same
  simp only [inner] at marks
  cases mount <;> cases mount' <;> simp at marks
  · exact ⟨rfl, by simpa [String.append_right_inj] using same⟩
  · exact ⟨rfl, by simpa [String.append_right_inj] using same⟩

/-- What is passed of the time server tells which one there is. -/
theorem server_append_inj {server server' : Option String} :
    (match server with | some text => " -RpiNtp " ++ text | none => "") =
      (match server' with | some text => " -RpiNtp " ++ text | none => "") ↔ server = server' := by
  cases server with
  | none =>
    cases server' with
    | none => simp
    | some text => simp
  | some text =>
    cases server' with
    | none => simp
    | some other => simp [String.append_right_inj]

theorem tweak_eq_iff {added added' : String}
    (isFirst : commandTweak fold collation tree first name = .ok added)
    (isSecond : commandTweak fold collation tree second name = .ok added') :
    added = added' ↔ ¬ ProvideDiffers fold first second name := by
  unfold commandTweak at isFirst isSecond
  unfold ProvideDiffers
  by_cases proxy : isNamed fold name "proxy" = true
  · rw [if_pos proxy] at isFirst isSecond
    rw [if_pos (.inl proxy)]
    cases isFirst
    cases isSecond
    cases first.proxyMode <;> cases second.proxyMode <;> decide
  rw [if_neg proxy] at isFirst isSecond
  by_cases mast : isNamed fold name "mast" = true
  · rw [if_pos mast] at isFirst isSecond
    rw [if_pos (.inr mast)]
    cases isFirst
    cases isSecond
    cases first.proxyMode <;> cases second.proxyMode <;> decide
  rw [if_neg mast] at isFirst isSecond
  rw [if_neg (not_or.mpr ⟨proxy, mast⟩)]
  by_cases imdisk : isNamed fold name "imdisk" = true
  · rw [if_pos imdisk] at isFirst isSecond ⊢
    cases isFirst
    cases isSecond
    rw [not_or, not_not, not_not]
    constructor
    · exact mount_append_inj
    · rintro ⟨mount, digest⟩
      rw [mount, digest]
  rw [if_neg imdisk] at isFirst isSecond ⊢
  by_cases config : isNamed fold name "config-bootstrap" = true
  · rw [if_pos config] at isFirst isSecond ⊢
    split at isFirst
    · split at isSecond
      · cases isFirst
        cases isSecond
        rw [not_not, String.append_right_inj]
      · split at isSecond <;> cases isSecond
    · split at isFirst <;> cases isFirst
  rw [if_neg config] at isFirst isSecond ⊢
  by_cases timesync : isNamed fold name "timesync" = true
  · rw [if_pos timesync] at isFirst isSecond ⊢
    cases isFirst
    cases isSecond
    rw [not_not]
    exact server_append_inj
  rw [if_neg timesync] at isFirst isSecond ⊢
  by_cases validation : isNamed fold name "mast-validation" = true
  · rw [if_pos validation] at isFirst isSecond
    cases isFirst
    cases isSecond
    rw [and_iff_right validation]
    cases first.testMode <;> cases second.testMode <;> decide
  · rw [if_neg validation] at isFirst isSecond
    cases isFirst
    cases isSecond
    simp [validation]

theorem verifyTweak_eq_iff (hasCheck : hasVerify fold tree name = true) :
    verifyTweak fold first name = verifyTweak fold second name ↔
      ¬ VerifyDiffers fold tree first second name := by
  unfold verifyTweak VerifyDiffers
  rw [and_iff_right hasCheck]
  cases isNamed fold name "astrometry" <;> cases isNamed fold name "usbpcap" <;>
    cases first.testMode <;> cases second.testMode <;> decide

end Tweaks

section Hashes

variable {fold : Char → Char} {collation : Collation} {sha256 : String → String}
  {tree : BuildTree} {params first second : BuildParams} {modules : List String}
  {commands commands' : List Command} {name : String}

/-- The line of a command in the text that is hashed. -/
def commandPiece (command : String) : List Char :=
  if command = "" then [] else "cmd:".toList ++ command.toList ++ ['\n']

theorem commandText_eq (commands : List String) :
    commandText commands = commands.flatMap commandPiece := by
  induction commands with
  | nil => rfl
  | cons command commands hypothesis =>
    by_cases empty : command = ""
    · subst empty
      rw [List.flatMap_cons, ← hypothesis]
      rfl
    · rw [commandText_cons empty, List.flatMap_cons, hypothesis, commandPiece, if_neg empty]
      simp

theorem commandPiece_injective : Function.Injective commandPiece := by
  intro command other same
  unfold commandPiece at same
  split at same
  · split at same
    · simp_all
    · simp at same
  · split at same
    · simp at same
    · simp only [List.append_assoc, List.append_cancel_left_eq, List.append_cancel_right_eq] at same
      exact String.toList_inj.mp same

/-- Modules of the same files and version have the same hash when their commands have the same
text. -/
theorem hash_eq_iff (injective : Function.Injective sha256)
    (files : List (String × Option String)) (repoFiles : List (String × String))
    (texts texts' : List String) (version : String) :
    getModuleContentHash sha256 ⟨files, repoFiles, texts, version⟩ =
        getModuleContentHash sha256 ⟨files, repoFiles, texts', version⟩ ↔
      texts.flatMap commandPiece = texts'.flatMap commandPiece := by
  rw [getModuleContentHash_inj injective, inputLines, inputLines, ← commandText_eq,
    ← commandText_eq]
  simp only [terminated_append, List.append_cancel_right_eq, List.append_cancel_left_eq]
  rfl

/-- The text of the command in a place. -/
def slotText (fold : Char → Char) (collation : Collation) (tree : BuildTree)
    (params : BuildParams) : Slot → String
  | .provide name => ((manifestOf fold tree name).map ModuleManifest.command).getD "" ++
      ((commandTweak fold collation tree params name).toOption).getD ""
  | .verify name => ((manifestOf fold tree name).map ModuleManifest.verify).getD "" ++
      verifyTweak fold params name
  | .finalize => ((manifestOf fold tree "proxy").map ModuleManifest.command).getD "" ++
      " -ForceMode use"
  | .finalizeVerify => ((manifestOf fold tree "proxy").map ModuleManifest.verify).getD ""

theorem text_of_fills {slot : Slot} {command : Command}
    (fills : Fills fold collation tree params slot command) :
    slotText fold collation tree params slot = command.cmd := by
  cases fills with
  | provide read tweak =>
    rw [slotText, manifestOf_read read, tweak]
    rfl
  | verify read =>
    rw [slotText, manifestOf_read read]
    rfl
  | finalize read =>
    rw [slotText, manifestOf_read read]
    rfl
  | finalizeVerify read =>
    rw [slotText, manifestOf_read read]
    rfl

/-- The places whose commands are hashed for a module. -/
def ownSlots (fold : Char → Char) (collation : Collation) (tree : BuildTree)
    (modules : List String) (name : String) : List Slot :=
  (sortedSlots fold collation tree modules).filter fun slot => isNamed fold (slotLabel slot) name ||
    isNamed fold (slotLabel slot) (name ++ verifySuffix)

theorem commandsOf_eq (made : newCommandFile fold collation tree params modules = .ok commands) :
    commandsOf fold commands name =
      (ownSlots fold collation tree modules name).map (slotText fold collation tree params) := by
  have kept : List.Forall₂ (Fills fold collation tree params)
      (ownSlots fold collation tree modules name)
      (commands.filter fun command => isNamed fold command.module name ||
        isNamed fold command.module (name ++ verifySuffix)) := by
    apply List.rel_filter _ (newCommandFile_sorted made)
    intro slot command fills
    simp only [label_of_fills fills]
  unfold commandsOf
  apply Eq.symm
  rw [← List.forall₂_eq_eq_eq, List.forall₂_map_left_iff, List.forall₂_map_right_iff]
  exact kept.imp fun _ _ => text_of_fills

theorem isNamed_suffix {other : String} :
    isNamed fold (other ++ verifySuffix) (name ++ verifySuffix) = isNamed fold other name := by
  rw [Bool.eq_iff_iff, isNamed_iff, isNamed_iff, foldText_append, foldText_append,
    String.append_left_inj]

theorem isVerify_congr {other : String} (named : isNamed fold other name = true) :
    isVerify fold other = isVerify fold name := by
  have same := congrArg String.toList (isNamed_iff.mp named)
  simp only [foldText, String.toList_ofList] at same
  simp only [isVerify, likeSuffix, same]

theorem own_label (buildable : Buildable fold tree modules) (isModule : name ∈ modules)
    {other : String} (isOther : other ∈ modules) :
    ((isNamed fold other name || isNamed fold other (name ++ verifySuffix)) = true ↔
      other = name) ∧
    ((isNamed fold (other ++ verifySuffix) name ||
      isNamed fold (other ++ verifySuffix) (name ++ verifySuffix)) = true ↔ other = name) := by
  have plain (module : String) (member : module ∈ modules) : isVerify fold module ≠ true := by
    rw [(buildable.plain module (buildable.spelled module member)).2]
    exact Bool.false_ne_true
  have spelled : isNamed fold other name = true ↔ other = name := by
    constructor
    · intro named
      exact buildable.directory (buildable.spelled other isOther) (buildable.spelled name isModule)
        (isNamed_iff.mp named)
    · rintro rfl
      exact isNamed_iff.mpr rfl
  rw [isNamed_suffix, Bool.or_eq_true, Bool.or_eq_true, spelled]
  constructor
  · apply or_iff_left
    intro named
    exact plain other isOther ((isVerify_congr named).trans (isVerify_append fold name))
  · apply or_iff_right
    intro named
    exact plain name isModule ((isVerify_congr named).symm.trans (isVerify_append fold other))

/-- The hash of a module is of its own commands, and of the finalization if it is the proxy. -/
theorem mem_ownSlots (buildable : Buildable fold tree modules) (isModule : name ∈ modules)
    {slot : Slot} : slot ∈ ownSlots fold collation tree modules name ↔
      slot ∈ commandSlots fold tree modules ∧ match slot with
        | .provide other => other = name
        | .verify other => other = name
        | .finalize => "proxy" = name
        | .finalizeVerify => "proxy" = name := by
  rw [ownSlots, List.mem_filter, sortedSlots, List.mem_mergeSort]
  apply and_congr_right
  intro isSlot
  have member := mem_commandSlots.mp isSlot
  cases slot with
  | provide other => exact (own_label buildable isModule member).1
  | verify other => exact (own_label buildable isModule member.1).2
  | finalize => exact (own_label buildable isModule (buildable.proxy_mem member)).1
  | finalizeVerify => exact (own_label buildable isModule (buildable.proxy_mem member.1)).2

/-- No module is given other arguments both for itself and for its check. -/
theorem not_verifyDiffers (provides : ProvideDiffers fold first second name) :
    ¬ VerifyDiffers fold tree first second name := by
  rintro ⟨checks, -, -⟩
  have others (label : String) (astrometry : "astrometry".toList.length ≠ label.toList.length)
      (usbpcap : "usbpcap".toList.length ≠ label.toList.length) :
      isNamed fold name label = false := by
    rcases checks with named | named
    · exact not_isNamed named astrometry
    · exact not_isNamed named usbpcap
  unfold ProvideDiffers at provides
  rw [others "proxy" (by decide) (by decide), others "mast" (by decide) (by decide),
    others "imdisk" (by decide) (by decide), others "config-bootstrap" (by decide) (by decide),
    others "timesync" (by decide) (by decide),
    others "mast-validation" (by decide) (by decide)] at provides
  simp at provides

/-- The parameters of a build change at most one of the commands that are hashed for a module. -/
theorem hashed_commands_eq_iff (buildable : Buildable fold tree modules) (isModule : name ∈ modules)
    (made : newCommandFile fold collation tree first modules = .ok commands)
    (made' : newCommandFile fold collation tree second modules = .ok commands') :
    (commandsOf fold commands name).flatMap commandPiece =
        (commandsOf fold commands' name).flatMap commandPiece ↔
      ¬ (ProvideDiffers fold first second name ∨ VerifyDiffers fold tree first second name) := by
  have provide : slotText fold collation tree first (.provide name) =
      slotText fold collation tree second (.provide name) ↔
        ¬ ProvideDiffers fold first second name := by
    obtain ⟨command, -, fills⟩ := (mem_newCommandFile made).2 (.provide name)
      (mem_commandSlots.mpr isModule)
    obtain ⟨command', -, fills'⟩ := (mem_newCommandFile made').2 (.provide name)
      (mem_commandSlots.mpr isModule)
    cases fills with
    | provide read tweak =>
      cases fills' with
      | provide read' tweak' =>
        rw [slotText, slotText, tweak, tweak', String.append_right_inj]
        exact tweak_eq_iff tweak tweak'
  have verify (hasCheck : hasVerify fold tree name = true) :
      slotText fold collation tree first (.verify name) =
        slotText fold collation tree second (.verify name) ↔
          ¬ VerifyDiffers fold tree first second name := by
    rw [slotText, slotText, String.append_right_inj]
    exact verifyTweak_eq_iff hasCheck
  have elsewhere {slot : Slot} (isSlot : slot ∈ ownSlots fold collation tree modules name)
      (provides : slot = .provide name → ¬ ProvideDiffers fold first second name)
      (verifies : slot = .verify name → ¬ VerifyDiffers fold tree first second name) :
      commandPiece (slotText fold collation tree first slot) =
        commandPiece (slotText fold collation tree second slot) := by
    obtain ⟨isCommand, own⟩ := (mem_ownSlots buildable isModule).mp isSlot
    cases slot with
    | provide other =>
      cases own
      rw [provide.mpr (provides rfl)]
    | verify other =>
      cases own
      rw [(verify (mem_commandSlots.mp isCommand).2).mpr (verifies rfl)]
    | finalize => rfl
    | finalizeVerify => rfl
  rw [commandsOf_eq made, commandsOf_eq made', List.flatMap_map, List.flatMap_map]
  by_cases provides : ProvideDiffers fold first second name
  · have place : .provide name ∈ ownSlots fold collation tree modules name :=
      (mem_ownSlots buildable isModule).mpr ⟨mem_commandSlots.mpr isModule, rfl⟩
    rw [flatMap_eq_iff_at place, commandPiece_injective.eq_iff, provide]
    · simp [provides]
    · intro slot isSlot other
      exact elsewhere isSlot (fun here => absurd here other) fun _ => not_verifyDiffers provides
  by_cases verifies : VerifyDiffers fold tree first second name
  · have hasCheck := verifies.2.1
    have place : .verify name ∈ ownSlots fold collation tree modules name :=
      (mem_ownSlots buildable isModule).mpr ⟨mem_commandSlots.mpr ⟨isModule, hasCheck⟩, rfl⟩
    rw [flatMap_eq_iff_at place, commandPiece_injective.eq_iff, verify hasCheck]
    · simp [verifies]
    · intro slot isSlot other
      exact elsewhere isSlot (fun _ => provides) fun here => absurd here other
  · refine iff_of_true (List.flatMap_congr fun slot isSlot => ?_) (by simp [provides, verifies])
    exact elsewhere isSlot (fun _ => provides) fun _ => verifies

end Hashes

section Rerun

variable {fold : Char → Char} {collation : Collation} {sha256 : String → String}
  {tree : BuildTree} {first second : BuildParams}
  {staging staging' : List Command → Except String StagedPayload} {modules : List String}
  {manifest manifest' : BuildManifest} {commands commands' : List Command} {name : String}

/-- The entry of a module is what was taken of its commands. -/
theorem state_of_finished (buildable : Buildable fold tree modules)
    (finished : buildMast fold collation sha256 tree first staging [PowerShell.joinNames modules] =
      .ok (manifest, commands)) (isModule : name ∈ modules) :
    ∃ state, moduleState fold sha256 tree commands name = .ok state ∧
      OrderedDict.get? id manifest.moduleState name = some state := by
  obtain rfl := buildable.modules_of_finished finished
  obtain ⟨-, -, ⟨states, read, isState⟩, -⟩ := buildMast_finished finished
  obtain ⟨state, isRead, exact, -⟩ := buildable.hashed read isModule
  rw [isState]
  exact ⟨state, isRead, exact⟩

theorem hash_eq_iff_differs (injective : Function.Injective sha256)
    (buildable : Buildable fold tree modules)
    (finished : buildMast fold collation sha256 tree first staging [PowerShell.joinNames modules] =
      .ok (manifest, commands))
    (finished' : buildMast fold collation sha256 tree second staging'
      [PowerShell.joinNames modules] = .ok (manifest', commands')) (isModule : name ∈ modules) :
    ∃ old new, OrderedDict.get? id manifest.moduleState name = some old ∧
      OrderedDict.get? id manifest'.moduleState name = some new ∧ old.version = new.version ∧
      (old.hash = new.hash ↔
        ¬ (ProvideDiffers fold first second name ∨ VerifyDiffers fold tree first second name)) := by
  obtain ⟨old, isOld, oldEntry⟩ := state_of_finished buildable finished isModule
  obtain ⟨new, isNew, newEntry⟩ := state_of_finished buildable finished' isModule
  obtain ⟨own, read, isOld⟩ := bind_eq_ok.mp isOld
  obtain ⟨version, isVersion, isOld⟩ := bind_eq_ok.mp isOld
  obtain ⟨repoFiles, isRepoFiles, isOld⟩ := bind_eq_ok.mp isOld
  obtain ⟨own', read', isNew⟩ := bind_eq_ok.mp isNew
  obtain ⟨version', isVersion', isNew⟩ := bind_eq_ok.mp isNew
  obtain ⟨repoFiles', isRepoFiles', isNew⟩ := bind_eq_ok.mp isNew
  cases read.symm.trans read'
  cases isVersion.symm.trans isVersion'
  cases isRepoFiles.symm.trans isRepoFiles'
  cases isOld
  cases isNew
  refine ⟨_, _, oldEntry, newEntry, rfl, ?_⟩
  obtain ⟨-, made, -, -⟩ := buildMast_finished finished
  obtain ⟨-, made', -, -⟩ := buildMast_finished finished'
  rw [buildable.modules_of_finished finished] at made
  rw [buildable.modules_of_finished finished'] at made'
  apply (hash_eq_iff injective _ _ _ _ _).trans
  exact hashed_commands_eq_iff buildable isModule made made'

/-- A module that a unit has from one build is clean for the other when the hashes agree. -/
theorem recordedClean_iff {installed : Option InstalledManifest} {old new : BuiltState}
    (isOld : OrderedDict.get? id manifest.moduleState name = some old)
    (isNew : OrderedDict.get? id manifest'.moduleState name = some new)
    (clean : RecordedClean installed manifest name) :
    RecordedClean installed manifest' name ↔ old.hash = new.hash := by
  obtain ⟨entry, isRecord, ⟨hash, isHash, some, isBuilt⟩, provide, verify⟩ := clean
  rw [isOld, Option.map_some, Option.some.injEq] at isBuilt
  constructor
  · rintro ⟨other, isOther, ⟨hash', isHash', -, isBuilt'⟩, -, -⟩
    rw [isNew, Option.map_some, Option.some.injEq] at isBuilt'
    cases isRecord.symm.trans isOther
    cases isHash.symm.trans isHash'
    rw [isBuilt, isBuilt']
  · intro same
    refine ⟨entry, isRecord, ⟨hash, isHash, some, ?_⟩, provide, verify⟩
    rw [isNew, Option.map_some, ← same, isBuilt]

/-- What a build with other parameters changes, and what a unit that has all of the first build
has to run again. -/
theorem parameters_rerun (injective : Function.Injective sha256)
    (buildable : Buildable fold tree modules)
    (finished : buildMast fold collation sha256 tree first staging [PowerShell.joinNames modules] =
      .ok (manifest, commands))
    (finished' : buildMast fold collation sha256 tree second staging'
      [PowerShell.joinNames modules] = .ok (manifest', commands')) :
    (∀ name ∈ modules, ∃ old new, OrderedDict.get? id manifest.moduleState name = some old ∧
      OrderedDict.get? id manifest'.moduleState name = some new ∧ old.version = new.version ∧
      (old.hash = new.hash ↔
        ¬ (ProvideDiffers fold first second name ∨ VerifyDiffers fold tree first second name))) ∧
    ∀ installed validation, (∀ name ∈ modules, RecordedClean installed manifest name) →
      ∀ name ∈ modules, Due installed manifest' validation name ↔
        (ProvideDiffers fold first second name ∨ VerifyDiffers fold tree first second name) ∨
          LiveFailure installed validation name := by
  have hashes {name : String} (isModule : name ∈ modules) :=
    hash_eq_iff_differs injective buildable finished finished' isModule
  refine ⟨fun name isModule => hashes isModule, ?_⟩
  intro installed validation clean name isModule
  obtain ⟨old, new, isOld, isNew, -, same⟩ := hashes isModule
  rw [due_iff_not_clean, recordedClean_iff isOld isNew (clean name isModule), same, not_not]

theorem parameters_rerun_proxied : ∃ manifest commands manifest' commands',
    buildMast Char.toLower ordinal sampleDigest sampleTree (sampleParams .direct) sampleStaging
      [PowerShell.joinNames sampleModules] = .ok (manifest, commands) ∧
    buildMast Char.toLower ordinal sampleDigest sampleTree (sampleParams .weizmann) sampleStaging
      [PowerShell.joinNames sampleModules] = .ok (manifest', commands') ∧
    (∀ name ∈ sampleModules, ∃ old new,
      OrderedDict.get? id manifest.moduleState name = some old ∧
      OrderedDict.get? id manifest'.moduleState name = some new ∧ old.version = new.version ∧
      (old.hash = new.hash ↔
        ¬ (ProvideDiffers Char.toLower (sampleParams .direct) (sampleParams .weizmann) name ∨
          VerifyDiffers Char.toLower sampleTree (sampleParams .direct) (sampleParams .weizmann)
            name))) ∧
    ∀ installed validation, (∀ name ∈ sampleModules, RecordedClean installed manifest name) →
      ∀ name ∈ sampleModules, Due installed manifest' validation name ↔
        (ProvideDiffers Char.toLower (sampleParams .direct) (sampleParams .weizmann) name ∨
          VerifyDiffers Char.toLower sampleTree (sampleParams .direct) (sampleParams .weizmann)
            name) ∨ LiveFailure installed validation name := by
  obtain ⟨⟨manifest, commands⟩, finished⟩ := sample_finished .direct
  obtain ⟨⟨manifest', commands'⟩, finished'⟩ := sample_finished .weizmann
  exact ⟨manifest, commands, manifest', commands', finished, finished',
    parameters_rerun sampleDigest_injective sample_buildable finished finished'⟩

end Rerun

end MastProvisioning.Driver
