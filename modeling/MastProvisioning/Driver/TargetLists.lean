import Mathlib
import MastProvisioning.Driver.Classification
import MastProvisioning.Driver.ProcessUnit

/-!
# The modules a run is given

Phase 5 takes the targets from the drift report, whose always-run modules are those of the
build, or from `_filter_targets`, which takes them from the provider tree. What is built is the
list the registry declares for the unit, or every provider of the tree. `TargetsSound` says what
holds of the list that is handed to execute and to the smoke check.
-/

namespace MastProvisioning.Driver

open MastProvisioning.Collections MastProvisioning.PowerShell MastProvisioning.Build
open MastProvisioning.Unit

/-- A build of the unit's module set from a provider tree. The directories of the tree have
names of their own, and an always-run module is one of them. -/
structure TreeBuild where
  tree : ProviderTree
  declared : Option (List String)
  build : BuildManifest
  closing : tree.alwaysModules.Nodup
  providers : ∀ name ∈ tree.alwaysModules, name ∈ tree.order.map Prod.fst
  built : build.modules = resolveModules tree declared
  always : build.alwaysModules = build.modules.filter fun name => name ∈ tree.alwaysModules

/-- A module the run is not kept from by `--modules`. -/
def RunOptions.Requests (options : RunOptions) (name : String) : Prop :=
  options.modules = [] ∨ name ∈ options.modules.flatMap splitNames

/-- By `order` in `module.json`, then by name. -/
def ProviderTree.NotAfter (tree : ProviderTree) (name other : String) : Prop :=
  tree.position name < tree.position other ∨
    (tree.position name = tree.position other ∧ name ≤ other)

namespace TreeBuild

variable (built : TreeBuild) (options : RunOptions) (installed : Option InstalledManifest)
  (validation : Option Validation)

/-- Some module of the build has to be run. -/
def Drifts : Prop := ∃ name ∈ built.build.modules, Due installed built.build validation name

/-- A module of the build that a run without `--force` goes over when there is drift. -/
def Runs (name : String) : Prop :=
  name ∈ built.build.modules ∧
    (Due installed built.build validation name ∨ name ∈ built.build.alwaysModules)

/-- What holds of the targets of a run. -/
structure TargetsSound (targets : List String) : Prop where
  /-- Every target is in the build, unless `--modules` brings in an always-run module of the tree
  that the unit's list leaves out. -/
  within : (∀ name ∈ targets, name ∈ built.build.modules) ↔
    options.modules = [] ∨ ∀ name ∈ built.tree.alwaysModules, name ∈ built.build.modules
  undeclared : built.declared = none → ∀ name ∈ targets, name ∈ built.build.modules
  once : built.build.modules.Nodup → targets.Nodup
  ordered : options.modules ≠ [] → targets.Pairwise built.tree.NotAfter
  closes : targets ≠ [] → ∀ name ∈ built.build.alwaysModules, name ∈ targets
  requested : ∀ name ∈ targets, options.Requests name ∨ name ∈ built.tree.alwaysModules
  /-- The modules that drifted and are asked for are run. -/
  complete : options.force = false → built.Drifts installed validation → ∀ name ∈ built.build.modules,
    Due installed built.build validation name → options.Requests name → name ∈ targets

end TreeBuild

section Classification

variable {installed : Option InstalledManifest} {build : BuildManifest}
  {validation : Option Validation} {name : String}

/-- What has to be run is what is not recorded clean, and what fails. -/
theorem due_iff_not_clean : Due installed build validation name ↔
    ¬ RecordedClean installed build name ∨ LiveFailure installed validation name := by
  have recorded : RecordedClean installed build name → ¬ Unrecorded installed name := by
    rintro ⟨entry, isRecord, -⟩ (none | null)
    · rw [isRecord] at none
      cases none
    · rw [isRecord] at null
      cases null
  constructor
  · rintro ⟨state, verdict, actionable⟩
    cases state with
    | upToDate => cases actionable
    | extra => cases actionable
    | missing => exact .inl fun clean => recorded clean verdict
    | needsUpdate => exact .inl verdict.2
    | needsRepair => exact .inr verdict.2
  · rintro (unclean | failure)
    · by_cases unrecorded : Unrecorded installed name
      · exact ⟨.missing, unrecorded, rfl⟩
      · exact ⟨.needsUpdate, ⟨unrecorded, unclean⟩, rfl⟩
    · by_cases clean : RecordedClean installed build name
      · exact ⟨.needsRepair, ⟨clean, failure⟩, rfl⟩
      · by_cases unrecorded : Unrecorded installed name
        · exact ⟨.missing, unrecorded, rfl⟩
        · exact ⟨.needsUpdate, ⟨unrecorded, clean⟩, rfl⟩

theorem drifted_eq_nil_iff : (classify installed build validation).drifted = [] ↔
    ∀ name ∈ build.modules, ¬ Due installed build validation name := by
  rw [← targets_eq_nil]
  exact (classify_classified installed build validation).noTargets

theorem current_iff_none_due : (classify installed build validation).current = true ↔
    ∀ name ∈ build.modules, ¬ Due installed build validation name := by
  rw [← drifted_eq_nil_iff, ← targets_eq_nil, DriftReport.current, List.isEmpty_iff]

/-- A name is a target when some module has to be run, and it does or closes a run. -/
theorem mem_targets_iff : name ∈ (classify installed build validation).targets ↔
    name ∈ build.modules ∧ (Due installed build validation name ∨ name ∈ build.alwaysModules) ∧
      ∃ other ∈ build.modules, Due installed build validation other := by
  by_cases drifts : (classify installed build validation).drifted = []
  · rw [targets_eq_nil.mpr drifts]
    have noDue := drifted_eq_nil_iff.mp drifts
    constructor
    · rintro ⟨⟩
    · rintro ⟨-, -, other, member, due⟩
      exact absurd due (noDue other member)
  · have someDue : ∃ other ∈ build.modules, Due installed build validation other := by
      by_contra none
      exact drifts (drifted_eq_nil_iff.mpr fun other member due => none ⟨other, member, due⟩)
    rw [targets_eq_filter drifts, List.mem_filter, Bool.or_eq_true, decide_eq_true_eq,
      decide_eq_true_eq, mem_drifted_iff]
    constructor
    · rintro ⟨member, due | closes⟩
      · exact ⟨member, .inl due.2, someDue⟩
      · exact ⟨member, .inr closes, someDue⟩
    · rintro ⟨member, due | closes, -⟩
      · exact ⟨member, .inl ⟨member, due⟩⟩
      · exact ⟨member, .inr closes⟩

end Classification

section Filter

variable {tree : ProviderTree} {requested targets fullSet : List String} {name : String}

/-- The modules `_filter_targets` keeps of those that were decided on. -/
def realTargets (requested targets fullSet : List String) : List String :=
  (if targets = [] then fullSet else targets).filter fun name => name ∈ requested.flatMap splitNames

theorem filterTargets_eq : filterTargets tree requested targets fullSet =
    if realTargets requested targets fullSet = [] then []
    else (realTargets requested targets fullSet ++ tree.alwaysModules.filter fun name =>
      name ∉ realTargets requested targets fullSet).mergeSort fun name other =>
        decide (tree.position name < tree.position other) ||
          (tree.position name == tree.position other && decide (name ≤ other)) := rfl

theorem filterTargets_eq_nil : filterTargets tree requested targets fullSet = [] ↔
    realTargets requested targets fullSet = [] := by
  rw [filterTargets_eq]
  split
  · rename_i none
    exact iff_of_true rfl none
  · rename_i some
    refine iff_of_false (fun none => ?_) some
    have lengths := congrArg List.length none
    rw [List.length_mergeSort, List.length_append, List.length_nil] at lengths
    exact some (List.length_eq_zero_iff.mp (by omega))

theorem mem_filterTargets (some : realTargets requested targets fullSet ≠ []) :
    name ∈ filterTargets tree requested targets fullSet ↔
      name ∈ realTargets requested targets fullSet ∨ name ∈ tree.alwaysModules := by
  rw [filterTargets_eq, if_neg some, List.mem_mergeSort, List.mem_append, List.mem_filter,
    decide_eq_true_eq]
  constructor
  · rintro (real | ⟨always, -⟩)
    · exact .inl real
    · exact .inr always
  · rintro (real | always)
    · exact .inl real
    · by_cases real : name ∈ realTargets requested targets fullSet
      · exact .inl real
      · exact .inr ⟨always, real⟩

theorem nodup_filterTargets (closing : tree.alwaysModules.Nodup)
    (real : (realTargets requested targets fullSet).Nodup) :
    (filterTargets tree requested targets fullSet).Nodup := by
  rw [filterTargets_eq]
  split
  · exact List.nodup_nil
  · apply (List.mergeSort_perm _ _).nodup_iff.mpr
    apply List.nodup_append.mpr ⟨real, closing.filter _, ?_⟩
    rintro name isReal _ isAlways rfl
    have notReal := (List.mem_filter.mp isAlways).2
    exact absurd isReal (of_decide_eq_true notReal)

theorem notAfter_iff {other : String} :
    (decide (tree.position name < tree.position other) ||
      (tree.position name == tree.position other && decide (name ≤ other))) = true ↔
        tree.NotAfter name other := by
  simp only [Bool.or_eq_true, Bool.and_eq_true, decide_eq_true_eq, beq_iff_eq]
  exact Iff.rfl

theorem ProviderTree.NotAfter.trans {first second third : String}
    (before : tree.NotAfter first second) (after : tree.NotAfter second third) :
    tree.NotAfter first third := by
  unfold ProviderTree.NotAfter at *
  rcases before with before | ⟨same, before⟩ <;> rcases after with after | ⟨alike, after⟩
  · exact .inl (by omega)
  · exact .inl (by omega)
  · exact .inl (by omega)
  · exact .inr ⟨by omega, le_trans before after⟩

theorem ProviderTree.notAfter_total (tree : ProviderTree) (first second : String) :
    tree.NotAfter first second ∨ tree.NotAfter second first := by
  unfold ProviderTree.NotAfter
  rcases lt_trichotomy (tree.position first) (tree.position second) with before | same | after
  · exact .inl (.inl before)
  · rcases le_total first second with before | after
    · exact .inl (.inr ⟨same, before⟩)
    · exact .inr (.inr ⟨same.symm, after⟩)
  · exact .inr (.inl after)

theorem pairwise_filterTargets :
    (filterTargets tree requested targets fullSet).Pairwise tree.NotAfter := by
  rw [filterTargets_eq]
  split
  · exact List.Pairwise.nil
  · refine (List.pairwise_mergeSort ?_ ?_ _).imp notAfter_iff.mp
    · intro first second third before after
      exact notAfter_iff.mpr ((notAfter_iff.mp before).trans (notAfter_iff.mp after))
    · intro first second
      rw [Bool.or_eq_true, notAfter_iff, notAfter_iff]
      exact tree.notAfter_total first second

end Filter

namespace TreeBuild

variable {built : TreeBuild} {options : RunOptions} {installed : Option InstalledManifest}
  {validation : Option Validation} {targets : List String}

/-- What phase 5 starts from: everything, or the targets of a report that found drift. -/
theorem decided_cases {decided : List String}
    (isDecided : (if options.force then some [] else
      driftTargets installed built.build validation) = some decided) :
    (decided = [] ∧ (options.force = false → ¬ built.Drifts installed validation)) ∨
      (built.Drifts installed validation ∧
        ∀ name, name ∈ decided ↔ built.Runs installed validation name) ∧
          decided.Sublist built.build.modules := by
  split at isDecided
  · rename_i forced
    cases isDecided
    exact .inl ⟨rfl, fun unforced => absurd forced (by simp [unforced])⟩
  · unfold driftTargets at isDecided
    simp only [] at isDecided
    split at isDecided
    · rename_i current
      split at isDecided
      · cases isDecided
      · cases isDecided
        refine .inl ⟨rfl, fun _ => ?_⟩
        rintro ⟨name, isModule, due⟩
        exact current_iff_none_due.mp current name isModule due
    · rename_i drifts
      cases isDecided
      have someDue : built.Drifts installed validation := by
        by_contra none
        exact drifts (current_iff_none_due.mpr fun name isModule due =>
          none ⟨name, isModule, due⟩)
      refine .inr ⟨⟨someDue, fun name => ?_⟩, ?_⟩
      · rw [mem_targets_iff]
        exact ⟨fun target => ⟨target.1, target.2.1⟩, fun run => ⟨run.1, run.2, someDue⟩⟩
      · obtain ⟨name, isModule, due⟩ := someDue
        rw [targets_eq_filter (List.ne_nil_of_mem (mem_drifted_iff.mpr ⟨isModule, due⟩))]
        exact List.filter_sublist

/-- The always-run modules of the build are those of the tree that it has. -/
theorem mem_always {name : String} :
    name ∈ built.build.alwaysModules ↔
      name ∈ built.build.modules ∧ name ∈ built.tree.alwaysModules := by
  rw [built.always, List.mem_filter, decide_eq_true_eq]

theorem phase5_run (runs : phase5 built.tree options installed built.build validation =
      .run targets) :
    ∃ decided, (if options.force then some [] else
        driftTargets installed built.build validation) = some decided ∧
      (options.modules = [] ∧ targets = decided ∨ options.modules ≠ [] ∧ targets ≠ [] ∧
        targets = filterTargets built.tree options.modules decided built.build.modules) := by
  unfold phase5 at runs
  split at runs
  · cases runs
  · rename_i decided isDecided
    refine ⟨decided, isDecided, ?_⟩
    split at runs
    · rename_i noModules
      cases runs
      exact .inl ⟨noModules, rfl⟩
    · rename_i someModules
      simp only [] at runs
      split at runs
      · cases runs
      · rename_i some
        cases runs
        exact .inr ⟨someModules, some, rfl⟩

/-- The modules that `--modules` picks from are in the build. -/
theorem mem_realTargets {decided : List String} {name : String}
    (isDecided : (if options.force then some [] else
      driftTargets installed built.build validation) = some decided) :
    name ∈ realTargets options.modules decided built.build.modules ↔
      name ∈ built.build.modules ∧ (decided = [] ∨ built.Runs installed validation name) ∧
        name ∈ options.modules.flatMap splitNames := by
  unfold realTargets
  rw [List.mem_filter, decide_eq_true_eq]
  rcases decided_cases isDecided with ⟨rfl, -⟩ | ⟨⟨⟨other, isOther, due⟩, members⟩, -⟩
  · simp
  · have some : decided ≠ [] := List.ne_nil_of_mem ((members other).mpr ⟨isOther, .inl due⟩)
    rw [if_neg some, members]
    constructor
    · rintro ⟨runs, named⟩
      exact ⟨runs.1, .inr runs, named⟩
    · rintro ⟨-, empty | runs, named⟩
      · exact absurd empty some
      · exact ⟨runs, named⟩

theorem nodup_realTargets {decided : List String} (once : built.build.modules.Nodup)
    (isDecided : (if options.force then some [] else
      driftTargets installed built.build validation) = some decided) :
    (realTargets options.modules decided built.build.modules).Nodup := by
  unfold realTargets
  apply List.Nodup.filter
  split
  · exact once
  · rcases decided_cases isDecided with ⟨rfl, -⟩ | ⟨-, sublist⟩
    · exact List.nodup_nil
    · exact once.sublist sublist

/-- A unit without a list of its own has every provider of the tree, those that close a run
included. -/
theorem always_of_undeclared (undeclared : built.declared = none) :
    ∀ name ∈ built.tree.alwaysModules, name ∈ built.build.modules := by
  intro name always
  rw [built.built, undeclared]
  exact List.mem_mergeSort.mpr (built.providers name always)

/-- What is handed to execute and to the smoke check. -/
theorem targets_sound
    (runs : phase5 built.tree options installed built.build validation = .run targets) :
    built.TargetsSound options installed validation targets := by
  obtain ⟨decided, isDecided, ⟨noModules, rfl⟩ | ⟨someModules, some, rfl⟩⟩ := phase5_run runs
  · have cases := decided_cases isDecided
    have within : ∀ name ∈ targets, name ∈ built.build.modules := by
      intro name isTarget
      rcases cases with ⟨rfl, -⟩ | ⟨⟨-, members⟩, -⟩
      · cases isTarget
      · exact ((members name).mp isTarget).1
    refine ⟨iff_of_true within (.inl noModules), fun _ => within, ?_,
      fun modules => absurd noModules modules, ?_, fun _ _ => .inl (.inl noModules), ?_⟩
    · intro once
      rcases cases with ⟨rfl, -⟩ | ⟨-, sublist⟩
      · exact List.nodup_nil
      · exact once.sublist sublist
    · intro some name always
      rcases cases with ⟨rfl, -⟩ | ⟨⟨-, members⟩, -⟩
      · exact absurd rfl some
      · exact (members name).mpr ⟨(mem_always.mp always).1, .inr always⟩
    · intro unforced drifts name isModule due _
      rcases cases with ⟨rfl, none⟩ | ⟨⟨-, members⟩, -⟩
      · exact absurd drifts (none unforced)
      · exact (members name).mpr ⟨isModule, .inl due⟩
  · have real : realTargets options.modules decided built.build.modules ≠ [] := fun none =>
      some (filterTargets_eq_nil.mpr none)
    have members (name : String) := @mem_filterTargets built.tree _ _ _ name real
    have within (closes : ∀ name ∈ built.tree.alwaysModules, name ∈ built.build.modules) :
        ∀ name ∈ filterTargets built.tree options.modules decided built.build.modules,
          name ∈ built.build.modules := by
      intro name isTarget
      rcases (members name).mp isTarget with isReal | always
      · exact ((mem_realTargets isDecided).mp isReal).1
      · exact closes name always
    refine ⟨?_, fun undeclared => within (always_of_undeclared undeclared),
      fun once => nodup_filterTargets built.closing (nodup_realTargets once isDecided),
      fun _ => pairwise_filterTargets, ?_, ?_, ?_⟩
    · rw [or_iff_right someModules]
      exact ⟨fun targets name always => targets name ((members name).mpr (.inr always)), within⟩
    · exact fun _ name always => (members name).mpr (.inr (mem_always.mp always).2)
    · intro name isTarget
      rcases (members name).mp isTarget with isReal | always
      · exact .inl (.inr ((mem_realTargets isDecided).mp isReal).2.2)
      · exact .inr always
    · intro unforced drifts name isModule due requests
      refine (members name).mpr (.inl ((mem_realTargets isDecided).mpr
        ⟨isModule, .inr ⟨isModule, .inl due⟩, requests.resolve_left someModules⟩))

/-- A run is refused for want of a requested module, and only then. -/
theorem runs_iff_requested (unforced : options.force = false)
    (drifts : built.Drifts installed validation) :
    (∃ targets, phase5 built.tree options installed built.build validation = .run targets) ↔
      ∃ name, built.Runs installed validation name ∧ options.Requests name := by
  have notCurrent : (classify installed built.build validation).current ≠ true := by
    intro current
    obtain ⟨name, isModule, due⟩ := drifts
    exact current_iff_none_due.mp current name isModule due
  have isDecided : (if options.force then some [] else
      driftTargets installed built.build validation) =
        some (classify installed built.build validation).targets := by
    simp [unforced, driftTargets, notCurrent]
  unfold phase5
  rw [isDecided]
  simp only []
  by_cases noModules : options.modules = []
  · rw [if_pos noModules]
    obtain ⟨name, isModule, due⟩ := drifts
    exact iff_of_true ⟨_, rfl⟩ ⟨name, ⟨isModule, .inl due⟩, .inl noModules⟩
  · rw [if_neg noModules]
    have members (name : String) := @mem_realTargets _ options _ _ _ name isDecided
    have targets : (classify installed built.build validation).targets ≠ [] := fun none =>
      notCurrent (by rw [DriftReport.current, none]; rfl)
    constructor
    · rintro ⟨run, runs⟩
      split at runs
      · cases runs
      · rename_i some
        obtain ⟨name, isReal⟩ := List.exists_mem_of_ne_nil _ (mt filterTargets_eq_nil.mpr some)
        obtain ⟨-, empty | isRun, named⟩ := (members name).mp isReal
        · exact absurd empty targets
        · exact ⟨name, isRun, .inr named⟩
    · rintro ⟨name, isRun, requests⟩
      have isReal := (members name).mpr ⟨isRun.1, .inr isRun, requests.resolve_left noModules⟩
      rw [if_neg (mt filterTargets_eq_nil.mp (List.ne_nil_of_mem isReal))]
      exact ⟨_, rfl⟩

/-- The targets of a run are sound; and where there is drift, a run without `--force` is made
exactly when a requested module drifted or closes every run. -/
theorem phase5_targets (built : TreeBuild) (options : RunOptions)
    (installed : Option InstalledManifest) (validation : Option Validation) :
    (∀ targets, phase5 built.tree options installed built.build validation = .run targets →
      built.TargetsSound options installed validation targets) ∧
    (options.force = false → built.Drifts installed validation →
      ((∃ targets, phase5 built.tree options installed built.build validation = .run targets) ↔
        ∃ name, built.Runs installed validation name ∧ options.Requests name)) :=
  ⟨fun _ => targets_sound, runs_iff_requested⟩

end TreeBuild

end MastProvisioning.Driver
