import MastProvisioning.Collections.OrderedDict
import MastProvisioning.PowerShell.Text

/-!
# What a build hands over

`build-mast.ps1` stages a payload for one unit and describes it in
`build-manifest.json` and `commands.json`. Both are read by the driver, which
compares names exactly, and by the unit's PowerShell, which folds case.
-/

namespace MastProvisioning.Build

open MastProvisioning.Collections MastProvisioning.PowerShell

/-- A module's entry in `module_state`. -/
structure BuiltState where
  version : String
  hash : String
deriving DecidableEq, Repr

/-- Names of staging-root entries, as in `module_payload` and `payload_always`. -/
structure PayloadNames where
  files : List String
  dirs : List String
deriving DecidableEq, Repr

/-- Which bucket of a payload record a name is in. -/
inductive Bucket
  | files
  | dirs
deriving DecidableEq, Repr

/-- The staged entries a payload record names; `_names` drops empty names. -/
def PayloadNames.slots (names : PayloadNames) : List (Bucket × String) :=
  (names.files.filter (· ≠ "")).map (Prod.mk .files) ++
    (names.dirs.filter (· ≠ "")).map (Prod.mk .dirs)

/-- `build-manifest.json`. -/
structure BuildManifest where
  payloadHash : String
  modules : List String
  moduleState : List (String × BuiltState)
  alwaysModules : List String
  modulePayload : List (String × PayloadNames)
  payloadAlways : PayloadNames
deriving DecidableEq, Repr

/-- The staged entries the manifest attributes to a module. -/
def BuildManifest.attributed (manifest : BuildManifest) (name : String) : List (Bucket × String) :=
  match OrderedDict.get? id manifest.modulePayload name with
  | some names => names.slots
  | none => []

/-- An entry of `commands.json`, already in execution order. -/
structure Command where
  order : Int
  desc : String
  cmd : String
  module : String
deriving DecidableEq, Repr

/-- The suffix that marks a verify command. -/
def verifySuffix : String := "-verify"

/-- `$name -like '*-verify'`. -/
def isVerify (fold : Char → Char) (name : String) : Bool :=
  likeSuffix fold verifySuffix name

/-- The module a command belongs to. -/
def baseName (fold : Char → Char) (name : String) : String :=
  if isVerify fold name then dropEnd name 7 else name

theorem isVerify_append (fold : Char → Char) (name : String) :
    isVerify fold (name ++ verifySuffix) = true :=
  likeSuffix_append fold name verifySuffix

theorem baseName_append (fold : Char → Char) (name : String) :
    baseName fold (name ++ verifySuffix) = name := by
  unfold baseName
  rw [if_pos (isVerify_append fold name)]
  exact dropEnd_append name verifySuffix

theorem baseName_of_not_isVerify {fold : Char → Char} {name : String}
    (plain : isVerify fold name = false) : baseName fold name = name := by
  simp [baseName, plain]

/-- A complete build as `build-mast.ps1` writes it: provider directories are
distinct on a file system that ignores case, every module has its content hash and
a provide command labelled with its name, and every other command is labelled with
a module's name and the verify suffix. -/
structure CompleteBuild (fold : Char → Char) where
  manifest : BuildManifest
  commands : List Command
  modules_ne_nil : manifest.modules ≠ []
  distinct : ∀ name ∈ manifest.modules, ∀ other ∈ manifest.modules,
    foldText fold name = foldText fold other → name = other
  plain : ∀ name ∈ manifest.modules, PlainName name ∧ isVerify fold name = false
  hashed : ∀ name ∈ manifest.modules, ∃ built, built.hash ≠ "" ∧
    OrderedDict.get? id manifest.moduleState name = some built ∧
    OrderedDict.get? (foldText fold) manifest.moduleState name = some built
  provided : ∀ name ∈ manifest.modules, ∃ command ∈ commands, command.module = name
  labelled : ∀ command ∈ commands, ∃ name ∈ manifest.modules,
    command.module = name ∨ command.module = name ++ verifySuffix

namespace CompleteBuild

variable {fold : Char → Char} (build : CompleteBuild fold)

/-- Every command belongs to a module of the build, spelled as the build spells it. -/
theorem baseName_mem {command : Command} (member : command ∈ build.commands) :
    baseName fold command.module ∈ build.manifest.modules := by
  obtain ⟨name, isModule, label | label⟩ := build.labelled command member
  · rw [label, baseName_of_not_isVerify (build.plain name isModule).2]
    exact isModule
  · rw [label, baseName_append]
    exact isModule

/-- A module's provide command belongs to it. -/
theorem provide_command {name : String} (isModule : name ∈ build.manifest.modules) :
    ∃ command ∈ build.commands, baseName fold command.module = name ∧
      isVerify fold command.module = false := by
  obtain ⟨command, member, label⟩ := build.provided name isModule
  have plain := (build.plain name isModule).2
  exact ⟨command, member, by rw [label, baseName_of_not_isVerify plain], by rw [label, plain]⟩

/-- No label is blank. -/
theorem isBlank_label {command : Command} (member : command ∈ build.commands) :
    isBlank command.module = false := by
  obtain ⟨name, isModule, label⟩ := build.labelled command member
  have visible := (build.plain name isModule).1.2
  simp only [isBlank] at visible ⊢
  rcases label with label | label
  · rw [label]
    exact visible
  · rw [label, String.toList_append, List.all_append, visible, Bool.false_and]

end CompleteBuild

end MastProvisioning.Build
