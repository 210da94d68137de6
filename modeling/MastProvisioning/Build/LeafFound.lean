import Mathlib.Data.Bool.AllAny
import MastProvisioning.Build.LeafStaging

/-!
# What a staging directory has of what was declared

A commandfile, a repofile or an entry of an asset tree is found when the staging directory
has its bytes at the path of its kind. Every block of the build stages over what is there,
so a file is found when all that is staged at its path, or above it, has its bytes.
-/

namespace MastProvisioning.Build.LeafStaging

open MastProvisioning.Collections MastProvisioning.PowerShell

variable {Content : Type}

/-- A file that a built module declares, with the path of its kind, if that is in the staging
directory. -/
structure Declared (Content : Type) where
  path : Option (List String)
  content : Content
deriving DecidableEq

section Declarations

variable (build : BuildInputs Content)

/-- The commandfiles of a module. -/
def BuildInputs.declaredCommands (module : Module Content) : List (Declared Content) :=
  module.commandFiles.filterMap fun commandFile =>
    (commandFile.source build.fold).map fun content => ⟨build.commandPath commandFile.path, content⟩

/-- The path of a repofile. -/
def BuildInputs.repoPath (repoFile : RepoFile Content) : List String :=
  [foldText build.fold (leaf repoFile.path)]

/-- The repofiles of a module. -/
def BuildInputs.declaredRepos (module : Module Content) : List (Declared Content) :=
  module.declaredRepoFiles.filterMap fun repoFile =>
    repoFile.source.map fun content => ⟨some (build.repoPath repoFile), content⟩

/-- The entries of an asset tree. -/
def BuildInputs.declaredEntries (block : Block Content) : List (Declared Content) :=
  match block.files with
  | .tree entries => entries.map fun entry => ⟨some (build.treePath block.name entry.1), entry.2⟩
  | _ => []

/-- What the built modules declare. -/
def BuildInputs.declared : List (Declared Content) :=
  build.modules.flatMap (fun module => build.declaredCommands module ++ build.declaredRepos module) ++
    (build.blocks.getD []).flatMap build.declaredEntries

/-- The client scripts that are there. -/
def BuildInputs.clientFiles : List (String × Content) :=
  clientScripts.filterMap fun script => (build.client script.1).map fun content => (script.1, content)

/-- The file that a step stages. -/
def Action.file? : Action Content → Option (List String × Content)
  | .link path content => some (path, content)
  | .write path content => some (path, content)
  | _ => none

/-- The files of a build's steps. -/
def BuildInputs.steps : List (List String × Content) :=
  (build.plan.getD []).filterMap Action.file?

/-- A staging directory has what was declared, and no client script of other bytes was
declared over. -/
structure Keeps (staging : StageDir Content) : Prop where
  found : ∀ file ∈ build.declared, ∃ path, file.path = some path ∧
    PathFiles.fileAt staging.files path = some file.content
  scripts : ∀ script ∈ build.clientFiles, ∀ file ∈ build.declared,
    file.path = some [foldText build.fold script.1] → script.2 = file.content

/-- What a build accepts, it stages. -/
def LosesNothing : Prop := ∀ staging ∈ build.run, Keeps build staging

/-- Nothing that is declared is left out or staged over. -/
structure Unclashed : Prop where
  staged : ∀ file ∈ build.declared, ∃ path, file.path = some path ∧
    (path, file.content) ∈ build.steps
  alike : ∀ file ∈ build.declared, ∀ path, file.path = some path →
    ∀ step ∈ build.steps, step.1 <+: path → step = (path, file.content)

end Declarations

section Steps

variable {build : BuildInputs Content}

theorem put_of_link {staging after : StageDir Content} {path : List String} {content : Content}
    (isLink : staging.link path content = some after) :
    PathFiles.put staging.files (path, content) = some after.files := by
  obtain ⟨files, isPut, same⟩ := Option.bind_eq_some_iff.mp isLink
  obtain rfl := Option.some.inj same
  exact isPut

/-- A step puts its file, and no other. -/
theorem putAll_of_step {fold : Char → Char} {action : Action Content}
    {staging after : StageDir Content} (ran : action.run fold staging = some after) :
    PathFiles.putAll staging.files action.file?.toList = some after.files := by
  cases action with
  | link path content =>
    rw [Action.file?, Option.toList_some, PathFiles.putAll_cons, put_of_link ran]
    rfl
  | write path content =>
    change staging.write path content = some after at ran
    rw [StageDir.write] at ran
    split at ran
    · exact absurd ran (by simp)
    · rw [Action.file?, Option.toList_some, PathFiles.putAll_cons, put_of_link ran]
      rfl
  | claim owner bucket name =>
    change staging.claim fold owner bucket name = some after at ran
    unfold StageDir.claim at ran
    split at ran
    · exact absurd ran (by simp)
    split at ran
    · rw [← Option.some.inj ran]
      rfl
    split at ran
    · exact absurd ran (by simp)
    · rw [← Option.some.inj ran]
      rfl
  | account =>
    change (if staging.unattributed fold = [] then some staging else none) = some after at ran
    split at ran
    · rw [← Option.some.inj ran]
      rfl
    · exact absurd ran (by simp)

/-- Staging is putting files. -/
theorem putAll_of_run {fold : Char → Char} {actions : List (Action Content)}
    {staging after : StageDir Content}
    (ran : actions.foldlM (Action.run fold) staging = some after) :
    PathFiles.putAll staging.files (actions.filterMap Action.file?) = some after.files := by
  induction actions generalizing staging with
  | nil =>
    rw [← Option.some.inj ran]
    rfl
  | cons action actions ih =>
    obtain ⟨next, isNext, later⟩ := Option.bind_eq_some_iff.mp ran
    have files : (action :: actions).filterMap Action.file? =
        action.file?.toList ++ actions.filterMap Action.file? := by
      cases isFile : action.file? <;> simp [isFile]
    rw [files, PathFiles.putAll_append, putAll_of_step isNext, Option.bind_some, ih later]

/-- The files of actions that are planned item by item. -/
theorem files_of_mapM {Item : Type} {plan : Item → Option (List (Action Content))}
    {files : Item → List (List String × Content)} {items : List Item}
    {planned : List (List (Action Content))}
    (each : ∀ item actions, plan item = some actions →
      actions.filterMap Action.file? = files item)
    (isPlanned : items.mapM plan = some planned) :
    planned.flatten.filterMap Action.file? = items.flatMap files := by
  induction items generalizing planned with
  | nil => rw [← Option.some.inj isPlanned]; rfl
  | cons item items ih =>
    rw [List.mapM_cons] at isPlanned
    obtain ⟨actions, isActions, later⟩ := Option.bind_eq_some_iff.mp isPlanned
    obtain ⟨more, isMore, same⟩ := Option.bind_eq_some_iff.mp later
    obtain rfl := Option.some.inj same
    rw [List.flatten_cons, List.filterMap_append, each item actions isActions, ih isMore,
      List.flatMap_cons]

/-- The file of a client script. -/
def BuildInputs.clientFile (build : BuildInputs Content) (script : String × Bool) :
    List (List String × Content) :=
  ((build.client script.1).map fun content => ([foldText build.fold script.1], content)).toList

theorem files_clientActions (script : String × Bool) (actions : List (Action Content))
    (isActions : build.clientActions script = some actions) :
    actions.filterMap Action.file? = build.clientFile script := by
  unfold BuildInputs.clientActions at isActions
  unfold BuildInputs.clientFile
  split at isActions
  · rename_i content isContent
    rw [isContent, ← Option.some.inj isActions]
    rfl
  · rename_i isNone
    split at isActions
    · exact absurd isActions (by simp)
    · rw [isNone, ← Option.some.inj isActions]
      rfl

/-- The file of a commandfile. -/
def BuildInputs.commandFile (build : BuildInputs Content) (commandFile : CommandFile Content) :
    List (List String × Content) :=
  ((commandFile.source build.fold).bind fun content =>
    (build.commandPath commandFile.path).map fun path => (path, content)).toList

theorem files_commandActions (module : String) (commandFile : CommandFile Content)
    (actions : List (Action Content))
    (isActions : build.commandActions module commandFile = some actions) :
    actions.filterMap Action.file? = build.commandFile commandFile := by
  unfold BuildInputs.commandActions at isActions
  unfold BuildInputs.commandFile
  split at isActions
  · rename_i isNone
    split at isActions
    · rw [isNone, ← Option.some.inj isActions]
      rfl
    · exact absurd isActions (by simp)
  · rename_i content isContent
    rw [isContent, ← Option.some.inj isActions, Option.bind_some]
    have recorded : Action.file? (if isAsset build.fold commandFile.path then
        (.claim (some module) .files (leaf commandFile.path) : Action Content)
      else .claim none (rootName commandFile.path).1 (rootName commandFile.path).2) = none := by
      split <;> rfl
    rw [List.filterMap_cons_none recorded, linkAt]
    cases build.commandPath commandFile.path <;> rfl

/-- The file of a repofile. -/
def BuildInputs.repoFile (build : BuildInputs Content) (repoFile : RepoFile Content) :
    List (List String × Content) :=
  (repoFile.source.map fun content => (build.repoPath repoFile, content)).toList

theorem files_repoActions (repoFile : RepoFile Content) (actions : List (Action Content))
    (isActions : build.repoActions repoFile = some actions) :
    actions.filterMap Action.file? = build.repoFile repoFile := by
  obtain ⟨content, isContent, same⟩ := Option.bind_eq_some_iff.mp isActions
  rw [BuildInputs.repoFile, isContent, ← Option.some.inj same]
  rfl

/-- The files of a module. -/
def BuildInputs.moduleFiles (build : BuildInputs Content) (module : Module Content) :
    List (List String × Content) :=
  if module.noCommandFiles then []
  else module.commandFiles.flatMap build.commandFile ++
    module.declaredRepoFiles.flatMap build.repoFile

theorem files_moduleActions (module : Module Content) (actions : List (Action Content))
    (isActions : build.moduleActions module = some actions) :
    actions.filterMap Action.file? = build.moduleFiles module := by
  unfold BuildInputs.moduleActions at isActions
  unfold BuildInputs.moduleFiles
  split at isActions
  · rw [if_pos ‹_›, ← Option.some.inj isActions]
    rfl
  · obtain ⟨commands, isCommands, later⟩ := Option.bind_eq_some_iff.mp isActions
    obtain ⟨repos, isRepos, same⟩ := Option.bind_eq_some_iff.mp later
    rw [if_neg ‹_›, ← Option.some.inj same, List.filterMap_append,
      files_of_mapM (files_commandActions module.name) isCommands,
      files_of_mapM files_repoActions isRepos]

/-- The files of a block. -/
def BuildInputs.blockFiles (build : BuildInputs Content) (block : Block Content) :
    List (List String × Content) :=
  match block.files with
  | .tree entries => entries.map fun entry => (build.treePath block.name entry.1, entry.2)
  | .link content => [([foldText build.fold block.name], content)]
  | .write content => [([foldText build.fold block.name], content)]

theorem files_blockActions (block : Block Content) :
    (build.blockActions block).filterMap Action.file? = build.blockFiles block := by
  have claims (bucket : Bucket) : (block.owners.map fun owner =>
      (Action.claim owner bucket block.name : Action Content)).filterMap Action.file? = [] := by
    rw [List.filterMap_eq_nil_iff]
    intro action member
    obtain ⟨owner, _, rfl⟩ := List.mem_map.mp member
    rfl
  unfold BuildInputs.blockActions BuildInputs.blockFiles
  cases block.files with
  | tree entries =>
    have files : Action.file? ∘ (fun entry : String × Content =>
        Action.link (build.treePath block.name entry.1) entry.2) =
          some ∘ fun entry => (build.treePath block.name entry.1, entry.2) := rfl
    dsimp only
    rw [List.filterMap_append, claims, List.append_nil, List.filterMap_map, files,
      List.filterMap_eq_map]
  | link content => simp only [List.filterMap_cons, Action.file?, claims]
  | write content => simp only [List.filterMap_cons, Action.file?, claims]

/-- The files of a build, in the order they are staged. -/
theorem steps_eq {actions : List (Action Content)} (isPlan : build.plan = some actions) :
    build.steps = clientScripts.flatMap build.clientFile ++ build.modules.flatMap build.moduleFiles ++
      ((build.blocks.getD []) ++ build.lastBlocks).flatMap build.blockFiles := by
  have blocks (list : List (Block Content)) :
      (list.flatMap build.blockActions).filterMap Action.file? = list.flatMap build.blockFiles := by
    rw [List.filterMap_flatMap]
    exact List.flatMap_congr fun block _ => files_blockActions block
  have planned := isPlan
  obtain ⟨client, isClient, later⟩ := Option.bind_eq_some_iff.mp isPlan
  obtain ⟨modules, isModules, later⟩ := Option.bind_eq_some_iff.mp later
  obtain ⟨own, isOwn, same⟩ := Option.bind_eq_some_iff.mp later
  rw [BuildInputs.steps, planned, Option.getD_some, ← Option.some.inj same]
  simp only [List.filterMap_append, blocks, files_of_mapM files_clientActions isClient,
    files_of_mapM files_moduleActions isModules, isOwn, Option.getD_some, List.flatMap_append]
  rw [List.filterMap_cons_none rfl, List.filterMap_nil, List.append_nil]
  simp only [List.append_assoc]

end Steps

section Blocks

variable {build : BuildInputs Content} {blocks : List (Block Content)}

/-- The names that blocks are staged under. -/
def blockNames : List String :=
  ["nomachine.lic", "sxs", "wheels", "mast-indexes.json", "mast-indexes", "full-frame.fits",
    "Setup_PlateSolve3_Catalog.exe", "Setup_PlateSolve3_Catalog-1.bin", "cygwin-pkg-cache",
    "commands.json", "build-manifest.json"]

theorem names_usable {can excused : Bool} {given : List (Block Content)}
    (isUsable : usable can excused given = some blocks) :
    (blocks.map Block.name).Sublist (given.map Block.name) := by
  unfold usable at isUsable
  split at isUsable
  · rw [Option.some.inj isUsable]
  split at isUsable
  · rw [← Option.some.inj isUsable]
    exact List.nil_sublist _
  · exact absurd isUsable (by simp)

theorem names_license (isBlocks : build.licenseBlocks = some blocks) :
    (blocks.map Block.name).Sublist ["nomachine.lic"] := by
  rw [← Option.some.inj isBlocks]
  split
  · exact List.Sublist.refl _
  · exact List.nil_sublist _

theorem names_sxs (isBlocks : build.sxsBlocks = some blocks) :
    (blocks.map Block.name).Sublist ["sxs"] := by
  unfold BuildInputs.sxsBlocks at isBlocks
  dsimp only at isBlocks
  split at isBlocks
  · exact names_usable isBlocks
  · rw [← Option.some.inj isBlocks]
    exact List.nil_sublist _

theorem names_wheels (isBlocks : build.wheelBlocks = some blocks) :
    (blocks.map Block.name).Sublist ["wheels"] := by
  unfold BuildInputs.wheelBlocks at isBlocks
  dsimp only at isBlocks
  split at isBlocks
  · exact names_usable isBlocks
  · rw [← Option.some.inj isBlocks]
    exact List.nil_sublist _

theorem names_index (isBlocks : build.indexBlocks = some blocks) :
    (blocks.map Block.name).Sublist ["mast-indexes.json", "mast-indexes"] := by
  unfold BuildInputs.indexBlocks at isBlocks
  dsimp only at isBlocks
  split at isBlocks
  · obtain ⟨manifest, isManifest, later⟩ := Option.bind_eq_some_iff.mp isBlocks
    obtain ⟨seed, isSeed, same⟩ := Option.bind_eq_some_iff.mp later
    rw [← Option.some.inj same, List.map_append]
    exact (names_usable isManifest).append (names_usable isSeed)
  · rw [← Option.some.inj isBlocks]
    exact List.nil_sublist _

theorem names_frame (isBlocks : build.frameBlocks = some blocks) :
    (blocks.map Block.name).Sublist ["full-frame.fits"] := by
  unfold BuildInputs.frameBlocks at isBlocks
  dsimp only at isBlocks
  split at isBlocks
  · rw [← Option.some.inj isBlocks]
    exact List.nil_sublist _
  split at isBlocks
  · rw [← Option.some.inj isBlocks]
    exact List.Sublist.refl _
  · exact (names_usable isBlocks).trans (List.nil_sublist _)

theorem names_catalog (isBlocks : build.catalogBlocks = some blocks) :
    (blocks.map Block.name).Sublist
      ["Setup_PlateSolve3_Catalog.exe", "Setup_PlateSolve3_Catalog-1.bin"] := by
  unfold BuildInputs.catalogBlocks at isBlocks
  split at isBlocks
  · split at isBlocks
    · rw [← Option.some.inj isBlocks]
      exact List.Sublist.refl _
    · exact (names_usable isBlocks).trans (List.nil_sublist _)
  · rw [← Option.some.inj isBlocks]
    exact List.nil_sublist _

theorem names_cygwin (isBlocks : build.cygwinBlocks = some blocks) :
    (blocks.map Block.name).Sublist ["cygwin-pkg-cache"] := by
  unfold BuildInputs.cygwinBlocks at isBlocks
  dsimp only at isBlocks
  split at isBlocks
  · exact names_usable isBlocks
  · rw [← Option.some.inj isBlocks]
    exact List.nil_sublist _

/-- Blocks are staged under their names, each once. -/
theorem names_blocks (isBlocks : build.blocks = some blocks) :
    ((blocks ++ build.lastBlocks).map Block.name).Sublist blockNames := by
  rw [BuildInputs.blocks, Option.bind_eq_bind, Option.bind_eq_some_iff] at isBlocks
  obtain ⟨license, isLicense, later⟩ := isBlocks
  obtain ⟨sxs, isSxs, later⟩ := Option.bind_eq_some_iff.mp later
  obtain ⟨wheels, isWheels, later⟩ := Option.bind_eq_some_iff.mp later
  obtain ⟨index, isIndex, later⟩ := Option.bind_eq_some_iff.mp later
  obtain ⟨frame, isFrame, later⟩ := Option.bind_eq_some_iff.mp later
  obtain ⟨catalog, isCatalog, later⟩ := Option.bind_eq_some_iff.mp later
  obtain ⟨cygwin, isCygwin, same⟩ := Option.bind_eq_some_iff.mp later
  rw [← Option.some.inj same]
  simp only [List.map_append]
  exact ((((((names_license isLicense).append (names_sxs isSxs)).append
    (names_wheels isWheels)).append (names_index isIndex)).append (names_frame isFrame)).append
      (names_catalog isCatalog)).append (names_cygwin isCygwin) |>.append (List.Sublist.refl _)

/-- The folding of a build is that of ASCII on ASCII names. -/
theorem BuildInputs.fold_ascii (build : BuildInputs Content) {name : String}
    (ascii : ∀ character ∈ name.toList, character.toNat < 128) :
    foldText build.fold name = foldCase name := by
  rw [foldText, List.map_congr_left fun character member =>
    build.folds character (ascii character member)]
  rfl

/-- No two blocks have one name. -/
theorem names_nodup (isBlocks : build.blocks = some blocks) :
    ((blocks ++ build.lastBlocks).map fun block => foldText build.fold block.name).Nodup := by
  have ascii : ∀ name ∈ blockNames, ∀ character ∈ name.toList, character.toNat < 128 := by
    intro name isName
    have all : blockNames.all (fun name => name.toList.all (·.toNat < 128)) = true := by decide
    exact List.all_iff_forall_prop.mp (List.all_eq_true.mp all name isName)
  have folded : blockNames.map (foldText build.fold) = blockNames.map foldCase :=
    List.map_congr_left fun name member => build.fold_ascii (ascii name member)
  have distinct : (blockNames.map (foldText build.fold)).Nodup := by
    rw [folded]
    decide
  have sublist := (names_blocks isBlocks).map (foldText build.fold)
  rw [List.map_map] at sublist
  exact distinct.sublist sublist

/-- What a block stages is at its name or below it. -/
theorem head_blockFiles {block : Block Content} :
    ∀ file ∈ build.blockFiles block, ∃ more, file.1 = foldText build.fold block.name :: more := by
  intro file member
  unfold BuildInputs.blockFiles at member
  split at member
  · obtain ⟨entry, _, rfl⟩ := List.mem_map.mp member
    exact ⟨_, rfl⟩
  · obtain rfl := List.mem_singleton.mp member
    exact ⟨[], rfl⟩
  · obtain rfl := List.mem_singleton.mp member
    exact ⟨[], rfl⟩

end Blocks

section Clashes

variable {build : BuildInputs Content} {staging : StageDir Content}

theorem putAll_steps (ran : build.run = some staging) :
    PathFiles.putAll [] build.steps = some staging.files := by
  obtain ⟨actions, isPlan, isRun⟩ := Option.bind_eq_some_iff.mp ran
  rw [BuildInputs.steps, isPlan]
  exact putAll_of_run isRun

theorem steps_of_run (ran : build.run = some staging) :
    build.steps = clientScripts.flatMap build.clientFile ++ build.modules.flatMap build.moduleFiles ++
      ((build.blocks.getD []) ++ build.lastBlocks).flatMap build.blockFiles := by
  obtain ⟨actions, isPlan, _⟩ := Option.bind_eq_some_iff.mp ran
  exact steps_eq isPlan

theorem mem_clientFile {step : List String × Content} :
    step ∈ clientScripts.flatMap build.clientFile ↔
      ∃ script ∈ build.clientFiles, step = ([foldText build.fold script.1], script.2) := by
  simp only [BuildInputs.clientFiles, BuildInputs.clientFile, List.mem_flatMap, Option.mem_toList,
    List.mem_filterMap, Option.map_eq_some_iff]
  constructor
  · rintro ⟨script, member, content, isContent, rfl⟩
    exact ⟨_, ⟨script, member, content, isContent, rfl⟩, rfl⟩
  · rintro ⟨_, ⟨script, member, content, isContent, rfl⟩, rfl⟩
    exact ⟨script, member, content, isContent, rfl⟩

/-- What the modules stage was declared. -/
theorem declared_of_moduleFiles {step : List String × Content}
    (member : step ∈ build.modules.flatMap build.moduleFiles) :
    ∃ file ∈ build.declared, file.path = some step.1 ∧ file.content = step.2 := by
  obtain ⟨module, isModule, isFile⟩ := List.mem_flatMap.mp member
  rw [BuildInputs.moduleFiles] at isFile
  split at isFile
  · exact absurd isFile List.not_mem_nil
  have declares (file : Declared Content)
      (isDeclared : file ∈ build.declaredCommands module ++ build.declaredRepos module) :
      file ∈ build.declared :=
    List.mem_append_left _ (List.mem_flatMap.mpr ⟨module, isModule, isDeclared⟩)
  rcases List.mem_append.mp isFile with isCommand | isRepo
  · obtain ⟨commandFile, isCommandFile, isStep⟩ := List.mem_flatMap.mp isCommand
    obtain ⟨content, isContent, later⟩ := Option.bind_eq_some_iff.mp (Option.mem_toList.mp isStep)
    obtain ⟨path, isPath, rfl⟩ := Option.map_eq_some_iff.mp later
    refine ⟨⟨build.commandPath commandFile.path, content⟩, declares _ ?_, isPath, rfl⟩
    refine List.mem_append_left _ (List.mem_filterMap.mpr ⟨commandFile, isCommandFile, ?_⟩)
    rw [isContent]
    rfl
  · obtain ⟨repoFile, isRepoFile, isStep⟩ := List.mem_flatMap.mp isRepo
    obtain ⟨content, isContent, rfl⟩ := Option.map_eq_some_iff.mp (Option.mem_toList.mp isStep)
    refine ⟨⟨some (build.repoPath repoFile), content⟩, declares _ ?_, rfl, rfl⟩
    refine List.mem_append_right _ (List.mem_filterMap.mpr ⟨repoFile, isRepoFile, ?_⟩)
    rw [isContent]
    rfl

/-- What a block stages was declared, or is all that it stages, under its name. -/
theorem declared_of_blockFiles {block : Block Content}
    (isBlock : block ∈ build.blocks.getD [] ++ build.lastBlocks) {step : List String × Content}
    (member : step ∈ build.blockFiles block) :
    (∃ file ∈ build.declared, file.path = some step.1 ∧ file.content = step.2) ∨
      build.blockFiles block = [step] ∧ step.1 = [foldText build.fold block.name] := by
  rw [BuildInputs.blockFiles] at member ⊢
  cases isFiles : block.files with
  | tree entries =>
    rw [isFiles] at member
    obtain ⟨entry, isEntry, rfl⟩ := List.mem_map.mp member
    have early : block ∈ build.blocks.getD [] := by
      refine (List.mem_append.mp isBlock).resolve_right fun isLast => ?_
      rcases List.mem_cons.mp isLast with rfl | isLast
      · exact absurd isFiles (by simp)
      · obtain rfl := List.mem_singleton.mp isLast
        exact absurd isFiles (by simp)
    refine .inl ⟨⟨some (build.treePath block.name entry.1), entry.2⟩, ?_, rfl, rfl⟩
    refine List.mem_append_right _ (List.mem_flatMap.mpr ⟨block, early, ?_⟩)
    rw [BuildInputs.declaredEntries, isFiles]
    exact List.mem_map_of_mem isEntry
  | link content =>
    rw [isFiles] at member
    obtain rfl := List.mem_singleton.mp member
    exact .inr ⟨rfl, rfl⟩
  | write content =>
    rw [isFiles] at member
    obtain rfl := List.mem_singleton.mp member
    exact .inr ⟨rfl, rfl⟩

/-- What is declared is found when nothing else is staged there. -/
theorem Unclashed.keeps (unclashed : Unclashed build) (ran : build.run = some staging) :
    Keeps build staging where
  found := by
    intro file member
    obtain ⟨path, isPath, isStaged⟩ := unclashed.staged file member
    exact ⟨path, isPath, PathFiles.fileAt_of_alike (putAll_steps ran)
      (unclashed.alike file member path isPath) (.inr isStaged)⟩
  scripts := by
    intro script isScript file member isPath
    have isStep : ([foldText build.fold script.1], script.2) ∈ build.steps := by
      rw [steps_of_run ran, List.append_assoc]
      exact List.mem_append_left _ (mem_clientFile.mpr ⟨script, isScript, rfl⟩)
    have same := unclashed.alike file member _ isPath _ isStep (List.prefix_refl _)
    exact congrArg Prod.snd same

/-- Two declared files that are found are not one above the other, and alike at one path. -/
theorem Keeps.declared_alike (keeps : Keeps build staging) (ran : build.run = some staging)
    {file other : Declared Content} (isFile : file ∈ build.declared) (isOther : other ∈ build.declared)
    {path below : List String} (isPath : file.path = some path) (isBelow : other.path = some below)
    (above : path <+: below) : (path, file.content) = (below, other.content) := by
  have flat := PathFiles.putAll_flat (by simp [PathFiles.Flat]) (putAll_steps ran)
  obtain ⟨_, same, found⟩ := keeps.found file isFile
  obtain rfl := Option.some.inj (isPath.symm.trans same)
  obtain ⟨_, same, foundBelow⟩ := keeps.found other isOther
  obtain rfl := Option.some.inj (isBelow.symm.trans same)
  obtain rfl : path = below := flat _ (PathFiles.mem_of_fileAt found) _
    (PathFiles.mem_of_fileAt foundBelow) above
  rw [Option.some.inj (found.symm.trans foundBelow)]

/-- A declared file that is found was staged. -/
theorem Keeps.staged (keeps : Keeps build staging) (ran : build.run = some staging)
    {file : Declared Content} (isFile : file ∈ build.declared) :
    ∃ path, file.path = some path ∧ (path, file.content) ∈ build.steps := by
  obtain ⟨path, isPath, found⟩ := keeps.found file isFile
  refine ⟨path, isPath, (PathFiles.mem_of_putAll (putAll_steps ran) found).resolve_left ?_⟩
  simp [PathFiles.fileAt, OrderedDict.get?]

/-- A client script is at no path above a declared file that is found. -/
theorem Keeps.script_alike (keeps : Keeps build staging) (ran : build.run = some staging)
    {script : String × Content} (isScript : script ∈ build.clientFiles) {file : Declared Content}
    (isFile : file ∈ build.declared) {path : List String} (isPath : file.path = some path)
    (above : [foldText build.fold script.1] <+: path) :
    ([foldText build.fold script.1], script.2) = (path, file.content) := by
  have all := putAll_steps ran
  have isStep : ([foldText build.fold script.1], script.2) ∈
      clientScripts.flatMap build.clientFile := mem_clientFile.mpr ⟨script, isScript, rfl⟩
  obtain ⟨_, same, isStaged⟩ := keeps.staged ran isFile
  obtain rfl := Option.some.inj (isPath.symm.trans same)
  rw [steps_of_run ran, List.append_assoc] at all isStaged
  rw [PathFiles.putAll_append] at all
  obtain ⟨scripts, areScripts, later⟩ := Option.bind_eq_some_iff.mp all
  have samePath : path = [foldText build.fold script.1] := by
    rcases List.mem_append.mp isStaged with isClient | isLater
    · obtain ⟨other, _, same⟩ := mem_clientFile.mp isClient
      obtain ⟨rfl, -⟩ := Prod.mk.inj same
      simpa using above.eq_of_length rfl |>.symm
    · exact PathFiles.eq_of_covered later (PathFiles.covered_of_mem areScripts _ isStep) _ isLater
        above
  rw [samePath, keeps.scripts script isScript file isFile (isPath.trans (congrArg some samePath))]

/-- What a block stages under its name stays, as no other block has the name. -/
theorem Keeps.block_alike (keeps : Keeps build staging) (ran : build.run = some staging)
    {block : Block Content} (isBlock : block ∈ build.blocks.getD [] ++ build.lastBlocks)
    {step : List String × Content} (only : build.blockFiles block = [step])
    (atName : step.1 = [foldText build.fold block.name]) {file : Declared Content}
    (isFile : file ∈ build.declared) {path : List String} (isPath : file.path = some path)
    (above : step.1 <+: path) : step = (path, file.content) := by
  obtain ⟨actions, isPlan, _⟩ := Option.bind_eq_some_iff.mp ran
  obtain ⟨_, _, later⟩ := Option.bind_eq_some_iff.mp isPlan
  obtain ⟨_, _, later⟩ := Option.bind_eq_some_iff.mp later
  obtain ⟨blocks, isBlocks, _⟩ := Option.bind_eq_some_iff.mp later
  have distinct := names_nodup isBlocks
  have all := putAll_steps ran
  rw [isBlocks, Option.getD_some] at isBlock
  rw [steps_of_run ran, isBlocks, Option.getD_some] at all
  obtain ⟨before, after, isSplit⟩ := List.append_of_mem isBlock
  rw [isSplit, List.map_append, List.map_cons, List.nodup_append, List.nodup_cons] at distinct
  rw [isSplit, List.flatMap_append, List.flatMap_cons, only, ← List.append_assoc,
    PathFiles.putAll_append] at all
  obtain ⟨sofar, _, later⟩ := Option.bind_eq_some_iff.mp all
  obtain ⟨next, isNext, rest⟩ := Option.bind_eq_some_iff.mp later
  obtain ⟨more, rfl⟩ := above
  have elsewhere : ∀ other ∈ after.flatMap build.blockFiles, ¬other.1 <+: step.1 ++ more := by
    intro other member isAbove
    obtain ⟨later, isLater, isOther⟩ := List.mem_flatMap.mp member
    obtain ⟨below, isBelow⟩ := head_blockFiles other isOther
    rw [isBelow, atName, List.singleton_append, List.cons_prefix_cons] at isAbove
    exact distinct.2.1.1 (List.mem_map.mpr ⟨later, isLater, isAbove.1⟩)
  obtain ⟨_, same, found⟩ := keeps.found file isFile
  obtain rfl := Option.some.inj (isPath.symm.trans same)
  rw [PathFiles.fileAt_putAll rest elsewhere, PathFiles.fileAt_put isNext] at found
  split at found
  · rename_i samePath
    exact Prod.ext samePath.symm (Option.some.inj found)
  · rw [if_pos (List.prefix_append _ _)] at found
    exact absurd found (by simp)

theorem Keeps.unclashed (keeps : Keeps build staging) (ran : build.run = some staging) :
    Unclashed build where
  staged := fun _ isFile => keeps.staged ran isFile
  alike := by
    intro file isFile path isPath step isStep above
    have fromDeclared (isDeclared : ∃ other ∈ build.declared,
        other.path = some step.1 ∧ other.content = step.2) : step = (path, file.content) := by
      obtain ⟨other, isOther, otherPath, otherContent⟩ := isDeclared
      have alike := keeps.declared_alike ran isOther isFile otherPath isPath above
      rw [otherContent] at alike
      exact alike
    rw [steps_of_run ran] at isStep
    rcases List.mem_append.mp isStep with isEarly | isBlockStep
    · rcases List.mem_append.mp isEarly with isClient | isModule
      · obtain ⟨script, isScript, rfl⟩ := mem_clientFile.mp isClient
        exact keeps.script_alike ran isScript isFile isPath above
      · exact fromDeclared (declared_of_moduleFiles isModule)
    · obtain ⟨block, isBlock, isStep⟩ := List.mem_flatMap.mp isBlockStep
      rcases declared_of_blockFiles isBlock isStep with isDeclared | ⟨only, atName⟩
      · exact fromDeclared isDeclared
      · exact keeps.block_alike ran isBlock only atName isFile isPath above

/-- A build loses nothing exactly when it stops, or when nothing it stages clashes with what
was declared. -/
theorem losesNothing_iff (build : BuildInputs Content) :
    LosesNothing build ↔ (build.run ≠ none → Unclashed build) := by
  constructor
  · intro loses ran
    obtain ⟨staging, isStaging⟩ := Option.ne_none_iff_exists'.mp ran
    exact (loses staging isStaging).unclashed isStaging
  · intro unclashed staging ran
    exact (unclashed (by rw [Option.mem_def.mp ran]; simp)).keeps ran

end Clashes

section Samples

/-- Two modules with an installer of one name. -/
def installers : BuildInputs Nat where
  fold := Char.toLower
  folds := fun _ _ => rfl
  root := ["C:", "MAST", "staging", "mast01", "01-provisioning"]
  testMode := false
  allowMissingNetFx3Sxs := false
  client := fun _ => some 0
  modules := [⟨"stage", [⟨"assets/setup.exe", some 1, none⟩], []⟩,
    ⟨"phd2", [⟨"assets/setup.exe", some 2, none⟩], []⟩]
  license := none
  sxs := ⟨[], []⟩
  wheels := ⟨[], []⟩
  indexes := ⟨[], []⟩
  indexesMatch := true
  indexManifest := 0
  fullFrame := none
  catalog := none
  catalogData := none
  cygwin := ⟨[], []⟩
  commands := 0
  manifest := 0

/-- The build accepts them, and the second installer takes the place of the first. -/
theorem installers_lose : ¬LosesNothing installers := by
  intro loses
  have ran : installers.run.isSome = true := by decide +kernel
  obtain ⟨staging, isStaging⟩ := Option.isSome_iff_exists.mp ran
  have unclashed := (loses staging isStaging).unclashed isStaging
  have clash := unclashed.alike ⟨some ["setup.exe"], 1⟩ (by decide +kernel) ["setup.exe"] rfl
    (["setup.exe"], 2) (by decide +kernel) (List.prefix_refl _)
  simp at clash

end Samples

end MastProvisioning.Build.LeafStaging
