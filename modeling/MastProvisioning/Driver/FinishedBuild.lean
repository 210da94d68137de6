import Mathlib
import MastProvisioning.Build.ContentHash
import MastProvisioning.Build.ModuleState
import MastProvisioning.Driver.TargetLists
import MastProvisioning.Unit.Execute

/-!
# From the providers to a run

The driver resolves the modules of a unit from the provider tree, hands them to `build-mast.ps1`
as one text, and later has execute run some of the commands that were built. `finished_build` says
that what comes out of the build is what the rest of the development takes a build for.
`run_in_order` and `run_ends_proxied` are about the commands in the order in which execute runs
them.
-/

namespace MastProvisioning.Driver

open MastProvisioning.Collections MastProvisioning.PowerShell MastProvisioning.Build
open MastProvisioning.Unit

/-- What the driver reads of the directories a build is made from. -/
def providerTree (tree : BuildTree) : ProviderTree where
  alwaysModules := (tree.manifests.filter fun entry => entry.2.always).map Prod.fst
  order := tree.manifests.map fun entry => (entry.1, entry.2.order)

/-- A run applies no module without its check after it, and checks none that it has not applied
before. -/
structure InOrder (fold : Char → Char) (tree : BuildTree) (run : List Command) : Prop where
  checked : ∀ provide ∈ run, isVerify fold provide.module = false →
    hasVerify fold tree provide.module = true →
      ∃ check, check.module = provide.module ++ verifySuffix ∧ [provide, check].Sublist run
  provided : ∀ check ∈ run, isVerify fold check.module = true →
    ∃ provide, provide.module = baseName fold check.module ∧ [provide, check].Sublist run

section Sample

/-- Descriptions in the order of their characters. -/
def ordinal : Collation where
  le first second := decide (first ≤ second)
  trans first second third before after := by
    simp only [decide_eq_true_eq] at *
    exact le_trans before after
  total first second := by
    simp only [Bool.or_eq_true, decide_eq_true_eq]
    exact le_total first second

/-- A digest that is never empty. -/
def sampleDigest (text : String) : String := "0" ++ tallies text

theorem sampleDigest_ne_empty (text : String) : sampleDigest text ≠ "" :=
  append_ne_empty (by decide) _

theorem sampleDigest_injective : Function.Injective sampleDigest := by
  intro text other same
  exact tallies_isDigest.injective ((String.append_right_inj _).mp same)

/-- Three providers: one that is cloned, one that closes the runs and is checked, one that closes
them and has no check. -/
def sampleTree : BuildTree where
  top := "C:\\prov"
  manifests := [
    ("mast", ⟨"mast", 2200, "Clone MAST", "provide-mast.ps1", "verify-mast.ps1", "repos", false,
      ["provide-mast.ps1"], ["tools/mast-repos.tsv"]⟩),
    ("proxy", ⟨"proxy", 100, "Set the proxy", "provide-proxy.ps1", "verify-proxy.ps1", "1.1", true,
      ["provide-proxy.ps1"], []⟩),
    ("reboot", ⟨"reboot", 9999, "Note a reboot", "provide-reboot.ps1", "", "1.0", true, [], []⟩)]
  commandFile := fun _ file => some file
  repoFile := fun file => some file
  sites := ["ns", "wis"]
  gitSha := none

def sampleModules : List String := ["mast", "proxy", "reboot"]

def sampleParams (mode : ProxyMode) : BuildParams := ⟨mode, .vm, false, "wis", "a1"⟩

def sampleStaging (_ : List Command) : Except String StagedPayload := .ok ⟨"5f", ⟨[], ⟨[], []⟩⟩⟩

theorem sample_buildable : Buildable Char.toLower sampleTree
    (resolveModules (providerTree sampleTree) (some sampleModules)) where
  nonempty := by decide
  directories := by
    unfold OrderedDict.Distinct
    decide +kernel
  plain := by
    have plain : ∀ name ∈ sampleModules, (',' ∉ name.toList ∧ isBlank name = false) ∧
        isVerify Char.toLower name = false := by decide +kernel
    exact plain
  proxy := by
    have proxy : ∀ name ∈ sampleModules, isNamed Char.toLower name "proxy" = true →
        name = "proxy" := by decide +kernel
    exact proxy
  spelled := fun _ isModule => isModule

theorem exists_of_isOk {Fault Value : Type*} {result : Except Fault Value}
    (isOk : result.toOption.isSome = true) : ∃ value, result = .ok value := by
  cases result with
  | error => cases isOk
  | ok value => exact ⟨value, rfl⟩

theorem sample_finished (mode : ProxyMode) :
    ∃ result, buildMast Char.toLower ordinal sampleDigest sampleTree (sampleParams mode)
      sampleStaging
      [PowerShell.joinNames (resolveModules (providerTree sampleTree) (some sampleModules))] =
        .ok result := by
  apply exists_of_isOk
  cases mode <;> decide +kernel

end Sample

section Trees

variable {fold : Char → Char} {collation : Collation} {sha256 : String → String}
  {tree : BuildTree} {params : BuildParams} {staging : List Command → Except String StagedPayload}
  {modules : List String} {manifest : BuildManifest} {commands : List Command} {name : String}

theorem isAlways_eq (buildable : Buildable fold tree modules) (isModule : name ∈ modules) :
    isAlways fold tree name = decide (name ∈ (providerTree tree).alwaysModules) := by
  obtain ⟨entry, isEntry, rfl⟩ := List.mem_map.mp (buildable.spelled name isModule)
  rw [isAlways, buildable.read_of_mem isEntry, Bool.eq_iff_iff, decide_eq_true_eq]
  unfold providerTree
  simp only [List.mem_map, List.mem_filter]
  constructor
  · intro always
    exact ⟨entry, ⟨isEntry, always⟩, rfl⟩
  · rintro ⟨other, ⟨isOther, always⟩, same⟩
    have found := buildable.read_of_mem isOther
    rw [same, buildable.read_of_mem isEntry] at found
    rw [Except.ok.inj found]
    exact always

/-- A build that finishes is of the modules that the driver resolved. -/
theorem treeBuild_of_finished {declared : Option (List String)}
    (buildable : Buildable fold tree (resolveModules (providerTree tree) declared))
    (finished : buildMast fold collation sha256 tree params staging
      [PowerShell.joinNames (resolveModules (providerTree tree) declared)] =
        .ok (manifest, commands)) :
    ∃ built : TreeBuild, built.tree = providerTree tree ∧ built.declared = declared ∧
      built.build = manifest := by
  have isModules := buildable.modules_of_finished finished
  obtain ⟨-, -, -, always⟩ := buildMast_finished finished
  refine ⟨{
    tree := providerTree tree
    declared := declared
    build := manifest
    closing := ?_
    providers := ?_
    built := isModules
    always := ?_ }, rfl, rfl, rfl⟩
  · have names : (tree.manifests.map Prod.fst).Nodup := by
      have exact := buildable.directories.exact
      exact exact
    exact names.sublist (List.filter_sublist.map Prod.fst)
  · intro name isAlways
    obtain ⟨entry, isEntry, rfl⟩ := List.mem_map.mp isAlways
    have order : (providerTree tree).order.map Prod.fst = tree.manifests.map Prod.fst := by
      simp [providerTree]
    rw [order]
    exact List.mem_map_of_mem (List.mem_filter.mp isEntry).1
  · rw [always, isModules]
    apply List.filter_congr
    intro name isModule
    exact isAlways_eq buildable isModule

/-- A build that finishes is complete, and is of the modules that the driver resolved. -/
theorem finished_build (declared : Option (List String))
    (buildable : Buildable fold tree (resolveModules (providerTree tree) declared))
    (digest : ∀ text, sha256 text ≠ "")
    (finished : buildMast fold collation sha256 tree params staging
      [PowerShell.joinNames (resolveModules (providerTree tree) declared)] =
        .ok (manifest, commands)) :
    (∃ build : CompleteBuild fold, build.manifest = manifest ∧ build.commands = commands) ∧
      ∃ built : TreeBuild, built.tree = providerTree tree ∧ built.declared = declared ∧
        built.build = manifest :=
  ⟨buildable.complete digest finished, treeBuild_of_finished buildable finished⟩

theorem finished_build_sample : ∃ manifest commands,
    buildMast Char.toLower ordinal sampleDigest sampleTree (sampleParams .direct) sampleStaging
      [PowerShell.joinNames (resolveModules (providerTree sampleTree) (some sampleModules))] =
        .ok (manifest, commands) ∧
    (∃ build : CompleteBuild Char.toLower, build.manifest = manifest ∧ build.commands = commands) ∧
      ∃ built : TreeBuild, built.tree = providerTree sampleTree ∧
        built.declared = some sampleModules ∧ built.build = manifest := by
  obtain ⟨⟨manifest, commands⟩, finished⟩ := sample_finished .direct
  exact ⟨manifest, commands, finished,
    finished_build (some sampleModules) sample_buildable sampleDigest_ne_empty finished⟩

end Trees

section Runs

variable {fold : Char → Char} {collation : Collation} {tree : BuildTree} {params : BuildParams}
  {modules : List String} {commands : List Command} {text : String}

theorem mem_filterCommands {command : Command} : command ∈ filterCommands fold text commands ↔
    command ∈ commands ∧ (isBlank text = true ∨
      ∃ name ∈ splitNames text, psEq fold name (baseName fold command.module) = true) := by
  unfold filterCommands
  split
  · rename_i blank
    simp [blank]
  · rename_i some
    simp [some]

/-- A run has all the commands of a module or none. -/
theorem mem_filterCommands_of_base {command other : Command}
    (isRun : command ∈ filterCommands fold text commands) (member : other ∈ commands)
    (same : baseName fold other.module = baseName fold command.module) :
    other ∈ filterCommands fold text commands := by
  rw [mem_filterCommands] at isRun ⊢
  rw [same]
  exact ⟨member, isRun.2⟩

theorem sorted_run (made : newCommandFile fold collation tree params modules = .ok commands) :
    (filterCommands fold text commands).Pairwise fun command other =>
      command.order ≤ other.order := by
  unfold filterCommands
  split
  · exact sorted_newCommandFile made
  · exact (sorted_newCommandFile made).filter _

/-- Two commands of a module are run in the order of their numbers. -/
theorem pair_of_order (made : newCommandFile fold collation tree params modules = .ok commands)
    {command other : Command} (isRun : command ∈ filterCommands fold text commands)
    (isOther : other ∈ filterCommands fold text commands) (before : command.order < other.order) :
    [command, other].Sublist (filterCommands fold text commands) :=
  pair_sublist_of_sorted (sorted_run made) isRun isOther before

/-- Whatever execute is asked to run. -/
theorem run_in_order (buildable : Buildable fold tree modules)
    (made : newCommandFile fold collation tree params modules = .ok commands) (text : String) :
    InOrder fold tree (filterCommands fold text commands) := by
  obtain ⟨placed, filled⟩ := mem_newCommandFile made
  have plain (name : String) (isModule : name ∈ modules) : isVerify fold name = false :=
    (buildable.plain name (buildable.spelled name isModule)).2
  constructor
  · intro provide isRun isProvide hasCheck
    obtain ⟨slot, isSlot, fills⟩ := placed provide (mem_of_filterCommands isRun)
    have member := mem_commandSlots.mp isSlot
    cases fills with
    | @provide name manifest added read tweak =>
      obtain ⟨check, isCheck, fills⟩ := filled (.verify name)
        (mem_commandSlots.mpr ⟨member, hasCheck⟩)
      cases fills with
      | verify readCheck =>
        cases (read.symm.trans readCheck)
        have run := mem_filterCommands_of_base isRun isCheck
          ((baseName_append fold name).trans (baseName_of_not_isVerify isProvide).symm)
        exact ⟨_, rfl, pair_of_order made isRun run (by simp)⟩
    | verify =>
      rw [isVerify_append] at isProvide
      cases isProvide
    | @finalize manifest read =>
      obtain ⟨check, isCheck, fills⟩ := filled .finalizeVerify
        (mem_commandSlots.mpr ⟨member, hasCheck⟩)
      cases fills with
      | finalizeVerify =>
        have run := mem_filterCommands_of_base isRun isCheck
          ((baseName_append fold "proxy").trans (baseName_of_not_isVerify isProvide).symm)
        exact ⟨_, rfl, pair_of_order made isRun run (by simp)⟩
    | finalizeVerify =>
      rw [isVerify_append] at isProvide
      cases isProvide
  · intro check isRun isCheck
    obtain ⟨slot, isSlot, fills⟩ := placed check (mem_of_filterCommands isRun)
    have member := mem_commandSlots.mp isSlot
    cases fills with
    | provide =>
      rw [plain _ member] at isCheck
      cases isCheck
    | @verify name manifest readCheck =>
      obtain ⟨provide, isProvide, fills⟩ := filled (.provide name) (mem_commandSlots.mpr member.1)
      cases fills with
      | provide read tweak =>
        cases (read.symm.trans readCheck)
        have base := baseName_append fold name
        have run := mem_filterCommands_of_base isRun isProvide
          ((baseName_of_not_isVerify (plain name member.1)).trans base.symm)
        exact ⟨_, base.symm, pair_of_order made run isRun (by simp)⟩
    | finalize =>
      rw [plain _ (buildable.proxy_mem member)] at isCheck
      cases isCheck
    | finalizeVerify =>
      obtain ⟨provide, isProvide, fills⟩ := filled .finalize (mem_commandSlots.mpr member.1)
      cases fills with
      | finalize read =>
        have base := baseName_append fold "proxy"
        have run := mem_filterCommands_of_base isRun isProvide
          ((baseName_of_not_isVerify (plain _ (buildable.proxy_mem member.1))).trans base.symm)
        exact ⟨_, base.symm, pair_of_order made run isRun (by simp)⟩

theorem run_in_order_sample : ∃ commands,
    newCommandFile Char.toLower ordinal sampleTree (sampleParams .direct) sampleModules =
      .ok commands ∧
    InOrder Char.toLower sampleTree (filterCommands Char.toLower "proxy,reboot" commands) := by
  obtain ⟨⟨manifest, commands⟩, finished⟩ := sample_finished .direct
  obtain ⟨-, made, -, -⟩ := buildMast_finished finished
  rw [sample_buildable.modules_of_finished finished] at made
  exact ⟨commands, made, run_in_order sample_buildable made "proxy,reboot"⟩

end Runs

section Targets

variable {fold : Char → Char} {collation : Collation} {sha256 : String → String}
  {tree : BuildTree} {params : BuildParams} {staging : List Command → Except String StagedPayload}
  {declared : Option (List String)} {manifest : BuildManifest} {commands : List Command}
  {options : RunOptions} {installed : Option InstalledManifest} {validation : Option Validation}
  {targets : List String}

/-- A target is a module of the build, or closes every run. -/
theorem mem_of_phase5 {built : TreeBuild} {name : String}
    (runs : phase5 built.tree options installed built.build validation = .run targets)
    (isTarget : name ∈ targets) :
    name ∈ built.build.modules ∨ name ∈ built.tree.alwaysModules := by
  obtain ⟨decided, isDecided, ⟨-, rfl⟩ | ⟨-, some, rfl⟩⟩ := TreeBuild.phase5_run runs
  · rcases TreeBuild.decided_cases isDecided with ⟨rfl, -⟩ | ⟨-, sublist⟩
    · cases isTarget
    · exact .inl (sublist.mem isTarget)
  · have real := mt filterTargets_eq_nil.mpr some
    rcases (mem_filterTargets real).mp isTarget with isReal | always
    · exact .inl ((TreeBuild.mem_realTargets isDecided).mp isReal).1
    · exact .inr always

/-- The commands of a module that closes every run are run. -/
theorem mem_run_of_always {built : TreeBuild} {name : String} {command : Command}
    (plain : ∀ other, other ∈ built.build.modules ∨ other ∈ built.tree.alwaysModules →
      PlainName other)
    (runs : phase5 built.tree options installed built.build validation = .run targets)
    (closes : name ∈ built.build.alwaysModules) (member : command ∈ commands)
    (base : baseName fold command.module = name) :
    command ∈ filterCommands fold (PowerShell.joinNames targets) commands := by
  have plainTargets : ∀ other ∈ targets, PlainName other :=
    fun other isTarget => plain other (mem_of_phase5 runs isTarget)
  rw [mem_filterCommands]
  refine ⟨member, ?_⟩
  by_cases none : targets = []
  · subst none
    exact .inl rfl
  · rw [splitNames_joinNames plainTargets none]
    exact .inr ⟨name, (TreeBuild.targets_sound runs).closes none name closes,
      by rw [base]; exact psEq_refl name⟩

/-- Whatever the mode a unit is provisioned in, a run of the driver ends by applying the proxy:
after every command with a lower number, and after every other command of the proxy. -/
theorem run_ends_proxied (options : RunOptions) (installed : Option InstalledManifest)
    (validation : Option Validation) (declared : Option (List String))
    (buildable : Buildable fold tree (resolveModules (providerTree tree) declared))
    (finished : buildMast fold collation sha256 tree params staging
      [PowerShell.joinNames (resolveModules (providerTree tree) declared)] =
        .ok (manifest, commands))
    {own : ModuleManifest} (isProxy : ("proxy", own) ∈ tree.manifests)
    (hasProxy : "proxy" ∈ manifest.modules) (always : own.always = true) (early : own.order < 9000)
    (runs : phase5 (providerTree tree) options installed manifest validation = .run targets) :
    ∃ finalize ∈ filterCommands fold (PowerShell.joinNames targets) commands,
      finalize.module = "proxy" ∧ finalize.cmd = own.command ++ " -ForceMode use" ∧
      ∀ command ∈ filterCommands fold (PowerShell.joinNames targets) commands,
        command.order < 9000 ∨ (command.module = "proxy" ∧ command ≠ finalize) →
          [command, finalize].Sublist
            (filterCommands fold (PowerShell.joinNames targets) commands) := by
  obtain ⟨built, isTree, -, rfl⟩ := treeBuild_of_finished buildable finished
  have isModules := buildable.modules_of_finished finished
  obtain ⟨-, made, -, -⟩ := buildMast_finished finished
  rw [← isTree] at runs
  rw [← isModules] at buildable
  obtain ⟨placed, filled⟩ := mem_newCommandFile made
  have plain := (buildable.plain "proxy" (buildable.spelled _ hasProxy)).2
  have read := buildable.read_of_mem isProxy
  obtain ⟨finalize, isFinalize, fills⟩ := filled .finalize
    (mem_commandSlots.mpr ⟨"proxy", hasProxy, isNamed_iff.mpr rfl⟩)
  cases fills with
  | finalize readProxy =>
    cases (read.symm.trans readProxy)
    have closes : "proxy" ∈ built.build.alwaysModules := by
      rw [TreeBuild.mem_always, isTree]
      exact ⟨hasProxy, List.mem_map.mpr ⟨_, List.mem_filter.mpr ⟨isProxy, always⟩, rfl⟩⟩
    have plainNames (other : String) (known : other ∈ built.build.modules ∨
        other ∈ built.tree.alwaysModules) : PlainName other := by
      rcases known with isModule | isAlways
      · exact buildable.plainModules other isModule
      · rw [isTree] at isAlways
        obtain ⟨entry, isEntry, rfl⟩ := List.mem_map.mp isAlways
        exact (buildable.plain _ (List.mem_map_of_mem (List.mem_filter.mp isEntry).1)).1
    have isRun := mem_run_of_always plainNames runs closes isFinalize
      (baseName_of_not_isVerify plain)
    refine ⟨_, isRun, rfl, rfl, ?_⟩
    rintro command isCommand (before | ⟨isProxyCommand, other⟩)
    · exact pair_of_order made isCommand isRun before
    · obtain ⟨slot, isSlot, fillsSlot⟩ := placed command (mem_of_filterCommands isCommand)
      cases fillsSlot with
      | provide readOwn =>
        obtain rfl := isProxyCommand
        cases (read.symm.trans readOwn)
        exact pair_of_order made isCommand isRun early
      | verify =>
        rw [← isProxyCommand, isVerify_append] at plain
        cases plain
      | finalize readOwn =>
        cases (read.symm.trans readOwn)
        exact absurd rfl other
      | finalizeVerify =>
        rw [← isProxyCommand, isVerify_append] at plain
        cases plain

theorem run_ends_proxied_sample : ∃ manifest commands,
    buildMast Char.toLower ordinal sampleDigest sampleTree (sampleParams .direct) sampleStaging
      [PowerShell.joinNames (resolveModules (providerTree sampleTree) (some sampleModules))] =
        .ok (manifest, commands) ∧
    ∃ finalize ∈ filterCommands Char.toLower (PowerShell.joinNames []) commands,
      finalize.module = "proxy" ∧ finalize.cmd = "provide-proxy.ps1" ++ " -ForceMode use" ∧
      ∀ command ∈ filterCommands Char.toLower (PowerShell.joinNames []) commands,
        command.order < 9000 ∨ (command.module = "proxy" ∧ command ≠ finalize) →
          [command, finalize].Sublist
            (filterCommands Char.toLower (PowerShell.joinNames []) commands) := by
  obtain ⟨⟨manifest, commands⟩, finished⟩ := sample_finished .direct
  have isModules := sample_buildable.modules_of_finished finished
  refine ⟨manifest, commands, finished, ?_⟩
  exact run_ends_proxied ⟨true, []⟩ none none (some sampleModules) sample_buildable finished
    (List.mem_cons_of_mem _ List.mem_cons_self) (by rw [isModules]; decide) rfl (by decide) rfl

end Targets

end MastProvisioning.Driver
