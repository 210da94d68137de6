import Mathlib
import MastProvisioning.Build.CommandFile
import MastProvisioning.Build.PayloadRecording
import MastProvisioning.Build.Staged

/-!
# The manifest of a build

`build-mast.ps1` makes the commands, stages the payload, and then takes the version and the
content hash of every module. `complete` says that a build that finishes is what the unit and
the driver take it for.
-/

namespace MastProvisioning.Build

open MastProvisioning.Collections MastProvisioning.PowerShell

/-- What the staging pass leaves. -/
structure StagedPayload where
  payloadHash : String
  record : PayloadRecord

section Operations

variable (fold : Char → Char) (collation : Collation) (sha256 : String → String)
  (tree : BuildTree) (params : BuildParams)

/-- `Get-AllProviderModules`. -/
def getAllProviderModules : Except String (List String) :=
  let entries := tree.manifests.map fun entry =>
    (if entry.2.name = "" then entry.1 else entry.2.name, entry.2.order)
  if entries = [] then
    .error ("No providers discovered under " ++ tree.providersRoot ++ " (check repo layout).")
  else .ok ((entries.mergeSort fun entry other => decide (entry.2 ≤ other.2)).map Prod.fst)

/-- `${Modules}`, once it is normalized and defaulted. -/
def buildModules (passed : List String) : Except String (List String) :=
  let modules := match passed with
    | [text] => if text.toList.contains ',' then splitNames text else [text]
    | _ => passed
  if modules = [] then getAllProviderModules tree else .ok modules

/-- `Get-MastReposManifestVersion`. -/
def getMastReposManifestVersion : Except String String :=
  match tree.repoFile "tools/mast-repos.tsv" with
  | none => .error ("Cannot version the mast module: no repo manifest at " ++ tree.top ++
      "\\tools\\mast-repos.tsv")
  | some content => .ok ("repos-" ++ String.ofList ((sha256 content).toList.take 12))

/-- The version of a module. -/
def moduleVersion (name version : String) : Except String String :=
  if isBlank version then .error ("module.json missing 'version' for module '" ++ name ++ "'")
  else if isNamed fold version "git" then .ok (tree.gitSha.getD "")
  else if isNamed fold version "repos" then getMastReposManifestVersion sha256 tree
  else .ok version

/-- The repo files of a module, in the order in which they are read. -/
def readRepoFiles (repofiles : List String) : Except String (List (String × String)) :=
  ((repofiles.filter (· ≠ "")).insertionSort fun file other => foldCase file ≤ foldCase other).mapM
    fun file => match tree.repoFile (slashes file) with
      | some content => .ok (file, content)
      | none => .error ("Get-ModuleContentHash: repofile not found: " ++ file ++
          " (looked in " ++ tree.top ++ ")")

/-- The commands that are hashed for a module. -/
def commandsOf (commands : List Command) (name : String) : List String :=
  (commands.filter fun command => isNamed fold command.module name ||
    isNamed fold command.module (name ++ verifySuffix)).map (·.cmd)

/-- The entry of a module in `module_state`. -/
def moduleState (commands : List Command) (name : String) : Except String BuiltState := do
  let manifest ← readModuleManifest fold tree name
  let version ← moduleVersion fold sha256 tree name manifest.version
  let repoFiles ← readRepoFiles tree manifest.repofiles
  let source : ModuleSource := {
    commandFiles := manifest.commandfiles.map fun file => (file, tree.commandFile name file)
    repoFiles := repoFiles
    commands := commandsOf fold commands name
    version := version }
  pure ⟨version, getModuleContentHash sha256 source⟩

/-- Whether a module is run whenever something is. -/
def isAlways (name : String) : Bool :=
  match readModuleManifest fold tree name with
  | .ok manifest => manifest.always
  | .error _ => false

/-- `build-mast.ps1`, with what the staging pass does as a parameter. -/
def buildMast (staging : List Command → Except String StagedPayload) (passed : List String) :
    Except String (BuildManifest × List Command) := do
  let modules ← buildModules tree passed
  let commands ← newCommandFile fold collation tree params modules
  let staged ← staging commands
  let states ← modules.mapM fun name => do
    let state ← moduleState fold sha256 tree commands name
    pure (name, state)
  pure ({
    payloadHash := staged.payloadHash
    modules := modules
    moduleState := OrderedDict.setAll (foldText fold) [] states
    alwaysModules := modules.filter (isAlways fold tree)
    modulePayload := staged.record.modules
    payloadAlways := staged.record.always }, commands)

end Operations

/-- A list of modules that can be built from a tree: the directories have names of their own on a
file system that ignores case, and the modules are spelled as their directories. -/
structure Buildable (fold : Char → Char) (tree : BuildTree) (modules : List String) : Prop where
  nonempty : modules ≠ []
  directories : OrderedDict.Distinct (foldText fold) tree.manifests
  plain : ∀ name ∈ tree.manifests.map Prod.fst, PlainName name ∧ isVerify fold name = false
  proxy : ∀ name ∈ tree.manifests.map Prod.fst, isNamed fold name "proxy" = true → name = "proxy"
  spelled : ∀ name ∈ modules, name ∈ tree.manifests.map Prod.fst

section Finished

variable {fold : Char → Char} {collation : Collation} {sha256 : String → String}
  {tree : BuildTree} {params : BuildParams} {staging : List Command → Except String StagedPayload}
  {passed modules : List String} {manifest : BuildManifest} {commands : List Command}
  {name : String}

theorem isNamed_iff {label : String} :
    isNamed fold name label = true ↔ foldText fold name = foldText fold label :=
  beq_iff_eq

/-- What a build that finishes has done. -/
theorem buildMast_finished (finished : buildMast fold collation sha256 tree params staging passed =
      .ok (manifest, commands)) :
    buildModules tree passed = .ok manifest.modules ∧
      newCommandFile fold collation tree params manifest.modules = .ok commands ∧
      (∃ states, List.Forall₂ (fun name state => state.1 = name ∧
          moduleState fold sha256 tree commands name = .ok state.2) manifest.modules states ∧
        manifest.moduleState = OrderedDict.setAll (foldText fold) [] states) ∧
      manifest.alwaysModules = manifest.modules.filter (isAlways fold tree) := by
  obtain ⟨modules, isModules, finished⟩ := bind_eq_ok.mp finished
  obtain ⟨made, isMade, finished⟩ := bind_eq_ok.mp finished
  obtain ⟨staged, -, finished⟩ := bind_eq_ok.mp finished
  obtain ⟨states, isStates, finished⟩ := bind_eq_ok.mp finished
  cases finished
  refine ⟨isModules, isMade, ⟨states, (mapM_eq_ok.mp isStates).imp ?_, rfl⟩, rfl⟩
  intro name state read
  obtain ⟨value, isState, read⟩ := bind_eq_ok.mp read
  cases read
  exact ⟨rfl, isState⟩

/-- What is passed as one text is read as the modules it was joined from. -/
theorem buildModules_joinNames (some : modules ≠ []) (plain : ∀ name ∈ modules, PlainName name) :
    buildModules tree [joinNames modules] = .ok modules := by
  have split := splitNames_joinNames plain some
  unfold buildModules
  by_cases comma : (joinNames modules).toList.contains ',' = true
  · simp only [comma, if_true, split, if_neg some]
  · have whole : [joinNames modules] = modules := by
      cases modules with
      | nil => exact absurd rfl some
      | cons name rest =>
        cases rest with
        | nil => simp [joinNames, List.intercalate]
        | cons other rest => simp [joinNames, List.intercalate] at comma
    simp only [comma, Bool.false_eq_true, if_false, whole, if_neg some]

namespace Buildable

/-- The directories are told apart by the file system. -/
theorem directory (buildable : Buildable fold tree modules) {other : String}
    (member : name ∈ tree.manifests.map Prod.fst) (isOther : other ∈ tree.manifests.map Prod.fst)
    (same : foldText fold name = foldText fold other) : name = other := by
  obtain ⟨entry, isEntry, rfl⟩ := List.mem_map.mp member
  obtain ⟨entry', isEntry', rfl⟩ := List.mem_map.mp isOther
  have found := OrderedDict.find?_of_mem buildable.directories isEntry
  have found' := OrderedDict.find?_of_mem buildable.directories isEntry'
  rw [OrderedDict.find?_congr same, found'] at found
  exact congrArg Prod.fst (Option.some.inj found).symm

/-- What is read for a module is the manifest of its directory. -/
theorem read_of_mem (buildable : Buildable fold tree modules) {entry : String × ModuleManifest}
    (member : entry ∈ tree.manifests) :
    readModuleManifest fold tree entry.1 = .ok entry.2 := by
  have found := OrderedDict.find?_of_mem buildable.directories member
  simp only [readModuleManifest, OrderedDict.get?, found, Option.map_some]

/-- A proxy among the modules is spelled as the finalization spells it. -/
theorem proxy_mem (buildable : Buildable fold tree modules)
    (hasProxy : ∃ name ∈ modules, isNamed fold name "proxy" = true) : "proxy" ∈ modules := by
  obtain ⟨name, isModule, isProxy⟩ := hasProxy
  rw [← buildable.proxy name (buildable.spelled name isModule) isProxy]
  exact isModule

/-- A command is labelled as a module, or as its check. -/
theorem label_of_fills (buildable : Buildable fold tree modules) {slot : Slot} {command : Command}
    (fills : Fills fold collation tree params slot command)
    (member : slot ∈ commandSlots fold tree modules) :
    ∃ name ∈ modules, command.module = name ∨ command.module = name ++ verifySuffix := by
  have isSlot := mem_commandSlots.mp member
  cases fills with
  | provide => exact ⟨_, isSlot, .inl rfl⟩
  | verify => exact ⟨_, isSlot.1, .inr rfl⟩
  | finalize => exact ⟨_, buildable.proxy_mem isSlot, .inl rfl⟩
  | finalizeVerify => exact ⟨_, buildable.proxy_mem isSlot.1, .inr rfl⟩

/-- Every module is in `module_state`, whether its name is compared with case or without. -/
theorem hashed (buildable : Buildable fold tree modules) {states : List (String × BuiltState)}
    (read : List.Forall₂ (fun name state => state.1 = name ∧
      moduleState fold sha256 tree commands name = .ok state.2) modules states)
    (isModule : name ∈ modules) :
    ∃ state, moduleState fold sha256 tree commands name = .ok state ∧
      OrderedDict.get? id (OrderedDict.setAll (foldText fold) [] states) name = some state ∧
      OrderedDict.get? (foldText fold) (OrderedDict.setAll (foldText fold) [] states) name =
        some state := by
  obtain ⟨each, only⟩ := aligned_mem read
  have distinct : OrderedDict.Distinct (foldText fold)
      (OrderedDict.setAll (foldText fold) [] states) := OrderedDict.distinct_nil.setAll states
  obtain ⟨state, isState, rfl, -⟩ := each name isModule
  cases found : OrderedDict.find? (foldText fold) (OrderedDict.setAll (foldText fold) [] states)
      state.1 with
  | none =>
    rw [OrderedDict.find?_setAll_reverse, OrderedDict.find?_nil, Option.or_none,
      OrderedDict.find?_eq_none] at found
    exact absurd rfl (found state (List.mem_reverse.mpr isState))
  | some entry =>
    obtain ⟨inDict, same⟩ := OrderedDict.mem_of_find? found
    have isEntry := (OrderedDict.mem_setAll inDict).resolve_right (by rintro ⟨⟩)
    obtain ⟨other, isOther, rfl, isRead⟩ := only entry isEntry
    have spelled := buildable.directory (buildable.spelled _ isOther)
      (buildable.spelled _ isModule) same
    rw [← spelled]
    refine ⟨entry.2, isRead, ?_, ?_⟩
    · rw [OrderedDict.get?, OrderedDict.find?_of_mem distinct.exact inDict, Option.map_some]
    · rw [OrderedDict.get?, OrderedDict.find?_of_mem distinct inDict, Option.map_some]

theorem plainModules (buildable : Buildable fold tree modules) :
    ∀ name ∈ modules, PlainName name :=
  fun name isModule => (buildable.plain name (buildable.spelled name isModule)).1

theorem modules_of_finished (buildable : Buildable fold tree modules)
    (finished : buildMast fold collation sha256 tree params staging [joinNames modules] =
      .ok (manifest, commands)) : manifest.modules = modules := by
  obtain ⟨isModules, -⟩ := buildMast_finished finished
  rw [buildModules_joinNames buildable.nonempty buildable.plainModules] at isModules
  exact (Except.ok.inj isModules).symm

/-- A build that finishes is complete. -/
theorem complete (buildable : Buildable fold tree modules) (digest : ∀ text, sha256 text ≠ "")
    (finished : buildMast fold collation sha256 tree params staging [joinNames modules] =
      .ok (manifest, commands)) :
    ∃ build : CompleteBuild fold, build.manifest = manifest ∧ build.commands = commands := by
  obtain rfl := buildable.modules_of_finished finished
  obtain ⟨-, made, ⟨states, read, isState⟩, -⟩ := buildMast_finished finished
  obtain ⟨placed, filled⟩ := mem_newCommandFile made
  refine ⟨{
    manifest := manifest
    commands := commands
    modules_ne_nil := buildable.nonempty
    distinct := fun name isModule other isOther =>
      buildable.directory (buildable.spelled name isModule) (buildable.spelled other isOther)
    plain := fun name isModule => buildable.plain name (buildable.spelled name isModule)
    hashed := ?_
    provided := ?_
    labelled := ?_ }, rfl, rfl⟩
  · intro name isModule
    obtain ⟨state, isRead, exact, folded⟩ := buildable.hashed read isModule
    rw [isState]
    refine ⟨state, ?_, exact, folded⟩
    obtain ⟨own, -, isRead⟩ := bind_eq_ok.mp isRead
    obtain ⟨version, -, isRead⟩ := bind_eq_ok.mp isRead
    obtain ⟨repoFiles, -, isRead⟩ := bind_eq_ok.mp isRead
    cases isRead
    exact digest _
  · intro name isModule
    obtain ⟨command, isCommand, fills⟩ := filled (.provide name) (mem_commandSlots.mpr isModule)
    cases fills
    exact ⟨_, isCommand, rfl⟩
  · intro command isCommand
    obtain ⟨slot, isSlot, fills⟩ := placed command isCommand
    exact buildable.label_of_fills fills isSlot

end Buildable

end Finished

end MastProvisioning.Build
