import MastProvisioning.Build.BootstrapRegistry

/-!
# What an accepted registry says of the script

PowerShell reads the script by a grammar of its own: an entry in double quotes is an entry,
one behind a number sign is none. Its reading is a parameter here. The registry describes
it exactly when the expressions of the build see what PowerShell sees.
-/

namespace MastProvisioning.Build.BootstrapRegistry

open MastProvisioning.Collections
open MastProvisioning.Collections.Patterns (Piece matchAt matchAt_word_congr matchAt_cons_congr)
open MastProvisioning.PowerShell (foldCase foldText)
open MastProvisioning.PowerShell.SettingsFile (Text isSpace laterLines)

section Meaning

/-- What PowerShell makes of a script: the version it assigns, the entries of its map, which
refuses a key twice, and the functions it defines. -/
structure Reading where
  version : Int
  actions : List (String × Action)
  distinct : OrderedDict.Distinct foldCase actions
  functions : List String

def Reading.Defines (reading : Reading) (name : String) : Prop :=
  ∃ function ∈ reading.functions, Same function name

/-- The registry describes what the script does. -/
structure Sound (release : Release) (reading : Reading) : Prop where
  unique : (release.registry.elementList.map fun element => foldCase element.name).Nodup
  carried : ∀ entry ∈ reading.actions, ∃ element ∈ release.registry.elementList,
    isReassertable element = true ∧ Same element.name entry.1 ∧ Same element.kind entry.2.kind
  dispatched : ∀ element ∈ release.registry.elementList, isReassertable element = true →
    ∃ entry ∈ reading.actions, Same entry.1 element.name ∧ Same entry.2.kind element.kind
  withheld : ∀ element ∈ release.registry.elementList,
    Same element.kind "console" ∨ Same element.kind "provider" →
      ∀ entry ∈ reading.actions, ¬Same entry.1 element.name
  defined : ∀ entry ∈ reading.actions, reading.Defines entry.2.function
  provided : ∀ element ∈ release.registry.elementList, Same element.kind "provider" →
    ∃ directory ∈ release.providerDirectories.getD [],
      directory.hasModuleJson = true ∧ Same directory.name element.named
  newest : IsGreatest {since | ∃ element ∈ release.registry.elementList,
    element.sinceNumber = since} reading.version

/-- An entry the map of a script holds in the spelling of the pattern; of several under one
id the last. -/
def Spelled (classes : CharClasses) (script : Text) (entry : String × Action) : Prop :=
  ∃ block, mapBlock script = some block ∧
    ∃ earlier later, spelledEntries classes block = earlier ++ entry :: later ∧
      ∀ other ∈ later, ¬Same other.1 entry.1

/-- The expressions of the build see in the script what PowerShell sees: the entries it
carries are those spelled their way, a function of an entry that begins a line is one
it defines, and the version first assigned is the one that stands. -/
structure Faithful (classes : CharClasses) (release : Release) (reading : Reading) : Prop where
  seen : ∀ entry ∈ reading.actions, ∃ spelled, Spelled classes release.script spelled ∧
    Same spelled.1 entry.1 ∧ Same spelled.2.kind entry.2.kind ∧
      (Same spelled.2.function entry.2.function ∨ reading.Defines entry.2.function)
  real : ∀ spelled, Spelled classes release.script spelled → ∃ entry ∈ reading.actions,
    Same entry.1 spelled.1 ∧ Same entry.2.kind spelled.2.kind
  defined : ∀ entry ∈ reading.actions,
    definesFunction release.script entry.2.function = true → reading.Defines entry.2.function
  assigned : ∃ digits, versionDigits classes release.script = some digits ∧
    toInt32 digits = some reading.version
  providers : (∀ directory ∈ release.providerDirectories.getD [],
      directory.hasModuleJson = false) →
    ∀ element ∈ release.registry.elementList, ¬Same element.kind "provider"

end Meaning

section Facts

variable {classes : CharClasses} {release : Release} {reading : Reading}

theorem same_map {first second : String} (same : Same first second) :
    first.toList.map Char.toLower = second.toList.map Char.toLower := by
  have folded : String.ofList (first.toList.map Char.toLower) =
      String.ofList (second.toList.map Char.toLower) := same
  simpa using congrArg String.toList folded

/-- Whether a function is found does not depend on the case of its name. -/
theorem definesFunction_congr {script : Text} {name other : String} (same : Same name other) :
    definesFunction script name = definesFunction script other := by
  have line (text : Text) : matchAt Char.toLower (functionPattern name) text =
      matchAt Char.toLower (functionPattern other) text := by
    apply matchAt_cons_congr
    apply matchAt_cons_congr
    exact matchAt_word_congr (same_map same)
  simp only [definesFunction, line]

/-- An element that may be called is neither of the console nor of a provider. -/
theorem not_reassertable {element : Element}
    (kind : Same element.kind "console" ∨ Same element.kind "provider") :
    isReassertable element = false := by
  have apart : foldCase "console" ≠ foldCase "routine" ∧ foldCase "console" ≠ foldCase "on-demand" ∧
      foldCase "provider" ≠ foldCase "routine" ∧ foldCase "provider" ≠ foldCase "on-demand" := by
    decide
  obtain ⟨console, consoleToo, provider, providerToo⟩ := apart
  simp only [isReassertable, Bool.or_eq_false_iff, decide_eq_false_iff_not]
  rcases kind with isConsole | isProvider
  · exact ⟨fun same => console (isConsole.symm.trans same),
      fun same => consoleToo (isConsole.symm.trans same)⟩
  · exact ⟨fun same => provider (isProvider.symm.trans same),
      fun same => providerToo (isProvider.symm.trans same)⟩

theorem mem_getMastProviderNames {directories : Option (List ProviderDirectory)} {name : String} :
    name ∈ getMastProviderNames directories ↔
      ∃ directory ∈ directories.getD [], directory.hasModuleJson = true ∧ directory.name = name := by
  simp [getMastProviderNames, and_assoc]

theorem getMastProviderNames_eq_nil {directories : Option (List ProviderDirectory)} :
    getMastProviderNames directories = [] ↔
      ∀ directory ∈ directories.getD [], directory.hasModuleJson = false := by
  simp [getMastProviderNames]

/-- The map that is read holds the entries spelled its way. -/
theorem mem_dispatchMap {dispatchMap : List (String × Action)}
    (map : getMastBootstrapDispatchMap classes release.scriptPath release.script = .ok dispatchMap)
    (entry : String × Action) : entry ∈ dispatchMap ↔ Spelled classes release.script entry := by
  unfold getMastBootstrapDispatchMap at map
  unfold Spelled
  cases found : mapBlock release.script with
  | none =>
    rw [found] at map
    cases map
  | some block =>
    rw [found] at map
    obtain rfl := Except.ok.inj map
    rw [OrderedDict.mem_setAll_nil_iff]
    constructor
    · rintro ⟨earlier, later, split, others⟩
      exact ⟨block, rfl, earlier, later, split, others⟩
    · rintro ⟨other, same, earlier, later, split, others⟩
      obtain rfl := Option.some.inj same
      exact ⟨earlier, later, split, others⟩

/-- What the checks of an accepted release established. -/
structure Checked (classes : CharClasses) (release : Release) (embedded : Int) : Prop where
  version : ∃ digits, versionDigits classes release.script = some digits ∧
    toInt32 digits = some embedded
  elements : ∀ element ∈ release.registry.elementList, WellFormed element ∧
    ProviderKnown (getMastProviderNames release.providerDirectories) element
  unique : (release.registry.elementList.map fun element => foldCase element.name).Nodup
  newest : IsGreatest {since | ∃ element ∈ release.registry.elementList,
    element.sinceNumber = since} embedded
  spelled : ∀ element ∈ release.registry.elementList, isReassertable element = true →
    ∃ entry, Spelled classes release.script entry ∧ Same entry.1 element.name
  known : ∀ entry, Spelled classes release.script entry →
    (∃ element ∈ release.registry.elementList, isReassertable element = true ∧
      Same element.name entry.1 ∧ Same element.kind entry.2.kind) ∧
    definesFunction release.script entry.2.function = true

theorem embeddedVersion_eq_ok {embedded : Int} :
    getMastBootstrapEmbeddedVersion classes release.scriptPath release.script = .ok embedded ↔
      ∃ digits, versionDigits classes release.script = some digits ∧
        toInt32 digits = some embedded := by
  unfold getMastBootstrapEmbeddedVersion
  cases versionDigits classes release.script with
  | none => simp
  | some digits => cases number : toInt32 digits <;> simp [number]

theorem toInt32_nonneg {digits : Text} {value : Int} (number : toInt32 digits = some value) :
    0 ≤ value := by
  unfold toInt32 at number
  split at number
  · simp only [Option.ite_none_right_eq_some, Option.some.injEq] at number
    omega
  · cases number

theorem script_ne_nil {digits : Text} (found : versionDigits classes release.script = some digits) :
    release.script ≠ [] := by
  intro empty
  rw [empty] at found
  cases found

theorem Accepts.checked (accepted : Accepts classes release) :
    ∃ embedded, Checked classes release embedded := by
  obtain ⟨embedded, dispatchMap, version, registry, map, coverage⟩ := accepts_iff.mp accepted
  obtain ⟨nonempty, elements, unique, current, versions⟩ := testRegistry_eq_nil_iff.mp registry
  obtain ⟨spelled, known⟩ := (testCoverage_eq_nil_iff unique).mp coverage
  obtain ⟨digits, found, number⟩ := embeddedVersion_eq_ok.mp version
  refine ⟨embedded, ⟨digits, found, number⟩, elements, unique, ?_, ?_, ?_⟩
  · rw [← versions (toInt32_nonneg number), current]
    exact isGreatest_maxSince nonempty
  · intro element member callable
    obtain ⟨entry, inMap, same⟩ := spelled element member callable
    exact ⟨entry, (mem_dispatchMap map entry).mp inMap, same⟩
  · intro entry isSpelled
    obtain ⟨element, defined⟩ := known entry ((mem_dispatchMap map entry).mpr isSpelled)
    exact ⟨element, defined.resolve_left (script_ne_nil found)⟩

end Facts

section Soundness

variable {classes : CharClasses} {release : Release} {reading : Reading} {embedded : Int}

/-- Elements of one id are one element. -/
theorem Checked.eq_of_same (checked : Checked classes release embedded) {element other : Element}
    (member : element ∈ release.registry.elementList)
    (otherMember : other ∈ release.registry.elementList)
    (same : Same element.name other.name) : element = other :=
  List.inj_on_of_nodup_map checked.unique member otherMember same

/-- What may be called is spelled with its kind. -/
theorem Checked.spelled_kind (checked : Checked classes release embedded) {element : Element}
    (member : element ∈ release.registry.elementList) (callable : isReassertable element = true) :
    ∃ entry, Spelled classes release.script entry ∧ Same entry.1 element.name ∧
      Same entry.2.kind element.kind := by
  obtain ⟨entry, spelled, sameId⟩ := checked.spelled element member callable
  obtain ⟨⟨other, otherMember, -, otherId, otherKind⟩, -⟩ := checked.known entry spelled
  obtain rfl := checked.eq_of_same otherMember member (otherId.trans sameId)
  exact ⟨entry, spelled, sameId, otherKind.symm⟩

theorem Checked.faithful (checked : Checked classes release embedded)
    (sound : Sound release reading) : Faithful classes release reading where
  seen := by
    intro entry member
    obtain ⟨element, inElements, callable, sameId, sameKind⟩ := sound.carried entry member
    obtain ⟨spelled, isSpelled, spelledId, spelledKind⟩ := checked.spelled_kind inElements callable
    exact ⟨spelled, isSpelled, spelledId.trans sameId, spelledKind.trans sameKind,
      .inr (sound.defined entry member)⟩
  real := by
    intro spelled isSpelled
    obtain ⟨⟨element, inElements, callable, sameId, sameKind⟩, -⟩ := checked.known spelled isSpelled
    obtain ⟨entry, member, entryId, entryKind⟩ := sound.dispatched element inElements callable
    exact ⟨entry, member, entryId.trans sameId, entryKind.trans sameKind⟩
  defined := fun entry member _ => sound.defined entry member
  assigned := by
    have same : embedded = reading.version := checked.newest.unique sound.newest
    exact same ▸ checked.version
  providers := by
    intro none element inElements isProvider
    obtain ⟨directory, there, hasJson, -⟩ := sound.provided element inElements isProvider
    rw [none directory there] at hasJson
    cases hasJson

theorem Checked.sound (checked : Checked classes release embedded)
    (faithful : Faithful classes release reading) : Sound release reading := by
  have carried : ∀ entry ∈ reading.actions, ∃ element ∈ release.registry.elementList,
      isReassertable element = true ∧ Same element.name entry.1 ∧
        Same element.kind entry.2.kind := by
    intro entry member
    obtain ⟨spelled, isSpelled, sameId, sameKind, -⟩ := faithful.seen entry member
    obtain ⟨⟨element, inElements, callable, elementId, elementKind⟩, -⟩ :=
      checked.known spelled isSpelled
    exact ⟨element, inElements, callable, elementId.trans sameId, elementKind.trans sameKind⟩
  refine ⟨checked.unique, carried, ?_, ?_, ?_, ?_, ?_⟩
  · intro element inElements callable
    obtain ⟨spelled, isSpelled, spelledId, spelledKind⟩ := checked.spelled_kind inElements callable
    obtain ⟨entry, member, entryId, entryKind⟩ := faithful.real spelled isSpelled
    exact ⟨entry, member, entryId.trans spelledId, entryKind.trans spelledKind⟩
  · intro element inElements kind entry member same
    obtain ⟨other, otherElements, callable, otherId, -⟩ := carried entry member
    obtain rfl := checked.eq_of_same otherElements inElements (otherId.trans same)
    rw [not_reassertable kind] at callable
    cases callable
  · intro entry member
    obtain ⟨spelled, isSpelled, -, -, sameFunction | defined⟩ := faithful.seen entry member
    · apply faithful.defined entry member
      rw [← definesFunction_congr sameFunction]
      exact (checked.known spelled isSpelled).2
    · exact defined
  · intro element inElements isProvider
    rcases (checked.elements element inElements).2 isProvider with none | known
    · exact absurd isProvider
        (faithful.providers (getMastProviderNames_eq_nil.mp none) element inElements)
    · obtain ⟨name, isName, same⟩ := listed_iff.mp known
      obtain ⟨directory, there, hasJson, rfl⟩ := mem_getMastProviderNames.mp isName
      exact ⟨directory, there, hasJson, same⟩
  · obtain ⟨digits, found, number⟩ := faithful.assigned
    obtain ⟨others, otherFound, otherNumber⟩ := checked.version
    rw [found] at otherFound
    obtain rfl := Option.some.inj otherFound
    rw [number] at otherNumber
    exact Option.some.inj otherNumber ▸ checked.newest

/-- An accepted registry describes the script exactly when the expressions of the build see
in the script what PowerShell sees. -/
theorem Accepts.sound_iff (accepted : Accepts classes release) (reading : Reading) :
    Sound release reading ↔ Faithful classes release reading := by
  obtain ⟨embedded, checked⟩ := accepted.checked
  exact ⟨checked.faithful, checked.sound⟩

end Soundness

end MastProvisioning.Build.BootstrapRegistry
