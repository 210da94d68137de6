import MastProvisioning.Build.Manifest
import MastProvisioning.Build.Staged
import MastProvisioning.Collections.PathFiles

/-!
# Staging by leaf name

`build-mast.ps1` fills one staging directory: the client scripts, then the commandfiles and
repofiles of each module, then what some modules have staged in a block of their own. Assets
and repofiles go to the root by their leaf name, scripts to their relative path.

What is staged is recorded by its root entry, and a build stops when a root entry was not
recorded; a name that is recorded again is not looked at again.
-/

namespace MastProvisioning.Build.LeafStaging

open MastProvisioning.Collections MastProvisioning.PowerShell

variable {Content : Type}

/-- A commandfile: its path in the manifest, and what the repo and the asset cache have there. -/
structure CommandFile (Content : Type) where
  path : String
  repo : Option Content
  cache : Option Content

/-- A repofile: its path in the manifest, and the file that is there. -/
structure RepoFile (Content : Type) where
  path : String
  file : Option Content

/-- What a provider manifest declares. -/
structure Module (Content : Type) where
  name : String
  commandFiles : List (CommandFile Content)
  repoFiles : List (RepoFile Content)

/-- A directory-shaped asset: its files in the cache and in the repo, by relative path. -/
structure AssetTree (Content : Type) where
  cache : List (String × Content)
  repo : List (String × Content)

/-- What a build goes by. Names are compared as Windows compares them. -/
structure BuildInputs (Content : Type) where
  fold : Char → Char
  folds : ∀ character : Char, character.toNat < 128 → fold character = character.toLower
  /-- The parts of the path of the staging directory. -/
  root : List String
  testMode : Bool
  allowMissingNetFx3Sxs : Bool
  client : String → Option Content
  modules : List (Module Content)
  license : Option Content
  sxs : AssetTree Content
  wheels : AssetTree Content
  indexes : AssetTree Content
  /-- The index seed is the set that is declared. -/
  indexesMatch : Bool
  indexManifest : Content
  fullFrame : Option Content
  catalog : Option Content
  catalogData : Option Content
  cygwin : AssetTree Content
  commands : Content
  manifest : Content

/-- A step of staging. A link makes way for itself; a file that is written does not. -/
inductive Action (Content : Type)
  | link (path : List String) (content : Content)
  | write (path : List String) (content : Content)
  | claim (owner : Option String) (bucket : Bucket) (name : String)
  | account

/-- The staging directory, its paths folded, with what was recorded of it. -/
structure StageDir (Content : Type) where
  files : List (List String × Content)
  payload : List (String × PayloadNames)
  always : PayloadNames

section Names

/-- What separates the parts of a path. -/
def isSeparator (character : Char) : Bool := character = '/' || character = '\\'

/-- The parts of a path. -/
def segments (path : String) : List String := (path.toList.splitOnP isSeparator).map String.ofList

/-- `Split-Path -Leaf`. -/
def leaf (path : String) : String := ((segments path).filter (· ≠ "")).getLastD ""

/-- A part of a path taken from a directory. -/
def enter (directory : List String) (segment : String) : List String :=
  if segment = "" ∨ segment = "." then directory
  else if segment = ".." then directory.dropLast
  else directory ++ [segment]

/-- The path below the staging directory that a relative path comes to, if it is one. -/
def BuildInputs.below (build : BuildInputs Content) (path : String) : Option (List String) :=
  let top := build.root.map (foldText build.fold)
  let full := ((segments path).foldl enter build.root).map (foldText build.fold)
  if top <+: full then some (full.drop top.length) else none

/-- `Test-MastCommandFileIsAsset`. -/
def isAsset (fold : Char → Char) (path : String) : Bool :=
  ("assets/".toList.map fold).isPrefixOf ((slashes path).toList.map fold)

/-- `Get-MastStagingRootName`. -/
def rootName (path : String) : Bucket × String :=
  ((if (slashes path).toList.contains '/' then .dirs else .files), (segments path).headD "")

/-- `Resolve-MastAssetSource`, with what is found there. -/
def CommandFile.source (fold : Char → Char) (commandFile : CommandFile Content) : Option Content :=
  if isAsset fold commandFile.path then commandFile.repo.or commandFile.cache else commandFile.repo

/-- `IsPathRooted`. -/
def isRooted (path : String) : Bool :=
  (path.toList.head?.any isSeparator) || path.toList[1]? = some ':'

/-- `Resolve-MastRepoFile`, with what is found there. -/
def RepoFile.source (repoFile : RepoFile Content) : Option Content :=
  if isBlank repoFile.path || isRooted repoFile.path || (segments repoFile.path).contains ".." then
    none
  else repoFile.file

end Names

section Plan

variable (build : BuildInputs Content)

/-- `-eq`. -/
def BuildInputs.same (name other : String) : Bool := foldText build.fold name = foldText build.fold other

/-- A module is built. -/
def BuildInputs.has (name : String) : Bool := build.modules.any fun one => build.same one.name name

/-- The scripts that every payload has; a build fails without the required ones. -/
def clientScripts : List (String × Bool) :=
  [("provisioning.psm1", true), ("mast-log.ps1", true), ("mast-net.ps1", true),
    ("mast-git-currency.ps1", true), ("execute-mast-provisioning.ps1", false),
    ("mast-invoke-child.ps1", false), ("mast-installed-manifest.ps1", true),
    ("mast-client-util.ps1", true), ("run-verify-only.ps1", false)]

/-- StageDir one of them. -/
def BuildInputs.clientActions (script : String × Bool) : Option (List (Action Content)) :=
  match build.client script.1 with
  | some content =>
    some [.write [foldText build.fold script.1] content, .claim none .files script.1]
  | none => if script.2 then none else some []

/-- The commandfiles that may be missing from a test build. -/
def BuildInputs.optional (name path : String) : Bool :=
  let norm := slashes path
  (build.same name "cygwin" && build.same norm "assets/astrometry.tgz") ||
    (build.same name "mast" &&
      ("assets/uv-".toList.map build.fold).isPrefixOf (norm.toList.map build.fold))

/-- The path that a commandfile is staged at. -/
def BuildInputs.commandPath (path : String) : Option (List String) :=
  if isAsset build.fold path then some [foldText build.fold (leaf path)] else build.below path

/-- A link at a path, if it is in the staging directory. -/
def linkAt (path : Option (List String)) (content : Content) : List (Action Content) :=
  (path.map fun path => .link path content).toList

/-- StageDir a commandfile of a module. -/
def BuildInputs.commandActions (module : String) (commandFile : CommandFile Content) :
    Option (List (Action Content)) :=
  match commandFile.source build.fold with
  | none =>
    if build.testMode && build.optional module commandFile.path then some [] else none
  | some content =>
    let recorded : Action Content :=
      if isAsset build.fold commandFile.path then
        .claim (some module) .files (leaf commandFile.path)
      else .claim none (rootName commandFile.path).1 (rootName commandFile.path).2
    some (recorded :: linkAt (build.commandPath commandFile.path) content)

/-- StageDir a repofile. -/
def BuildInputs.repoActions (repoFile : RepoFile Content) : Option (List (Action Content)) := do
  let content ← repoFile.source
  some [.link [foldText build.fold (leaf repoFile.path)] content,
    .claim none .files (leaf repoFile.path)]

/-- `Get-MastModuleRepoFiles`. -/
def Module.declaredRepoFiles (module : Module Content) : List (RepoFile Content) :=
  module.repoFiles.filter fun repoFile => repoFile.path ≠ ""

/-- `-not $mf.commandfiles`. -/
def Module.noCommandFiles (module : Module Content) : Bool :=
  match module.commandFiles with
  | [] => true
  | [one] => one.path = ""
  | _ => false

/-- The body of the loop over the modules. -/
def BuildInputs.moduleActions (module : Module Content) : Option (List (Action Content)) :=
  if module.noCommandFiles then some []
  else do
    let commands ← module.commandFiles.mapM (build.commandActions module.name)
    let repos ← module.declaredRepoFiles.mapM build.repoActions
    some (commands.flatten ++ repos.flatten)

/-- `Get-MastAssetTreeEntries`: the repo's file wins over the cache's. -/
def BuildInputs.assetTreeEntries (tree : AssetTree Content) : List (String × Content) :=
  (tree.cache ++ tree.repo).foldl (fun seen entry =>
    OrderedDict.upsert (foldText build.fold) seen entry.1 entry.2 fun _ => entry.2) []

/-- What a block stages under its name. -/
inductive BlockFiles (Content : Type)
  | tree (entries : List (String × Content))
  | link (content : Content)
  | write (content : Content)

/-- A root entry that is staged apart from the commandfiles, with who it is recorded for. -/
structure Block (Content : Type) where
  name : String
  files : BlockFiles Content
  owners : List (Option String)

/-- The path of an entry of a tree. -/
def BuildInputs.treePath (name relative : String) : List String :=
  (name :: segments relative).map (foldText build.fold)

/-- StageDir a block; `Add-MastAssetTree` for a tree. -/
def BuildInputs.blockActions (block : Block Content) : List (Action Content) :=
  match block.files with
  | .tree entries =>
    entries.map (fun entry => .link (build.treePath block.name entry.1) entry.2) ++
      block.owners.map fun owner => .claim owner .dirs block.name
  | .link content =>
    .link [foldText build.fold block.name] content ::
      block.owners.map fun owner => .claim owner .files block.name
  | .write content =>
    .write [foldText build.fold block.name] content ::
      block.owners.map fun owner => .claim owner .files block.name

/-- Blocks that are staged when they can be; else the build stops, unless it is excused. -/
def usable (can excused : Bool) (blocks : List (Block Content)) : Option (List (Block Content)) :=
  if can then some blocks else if excused then some [] else none

/-- The license. -/
def BuildInputs.licenseBlocks : Option (List (Block Content)) :=
  some (match build.has "nomachine", build.license with
    | true, some content => [⟨"nomachine.lic", .write content, [some "nomachine"]⟩]
    | _, _ => [])

/-- A directory of one build, with a cab in it. -/
def BuildInputs.isCab (relative : String) : Bool :=
  (segments relative).length = 2 && (segments relative).all (· ≠ "") &&
    likeSuffix build.fold ".cab" relative && 4 < (leaf relative).length

/-- The NetFx3 payloads. -/
def BuildInputs.sxsBlocks : Option (List (Block Content)) :=
  let entries := build.assetTreeEntries build.sxs
  if build.has "ascom" then
    usable (entries.any fun entry => build.isCab entry.1) build.allowMissingNetFx3Sxs
      [⟨"sxs", .tree entries, [some "ascom"]⟩]
  else some []

/-- The wheelhouse. -/
def BuildInputs.wheelBlocks : Option (List (Block Content)) :=
  let entries := (build.assetTreeEntries build.wheels).filter fun entry =>
    likeSuffix build.fold ".whl" entry.1
  if build.has "jupyter" then
    usable (entries ≠ []) false [⟨"wheels", .tree entries, [some "jupyter"]⟩]
  else some []

/-- The index seed, with its manifest. -/
def BuildInputs.indexBlocks : Option (List (Block Content)) :=
  let entries := build.assetTreeEntries build.indexes
  if build.has "imdisk" then do
    let manifest ← usable (entries = [] || build.indexesMatch || build.testMode) false
      [⟨"mast-indexes.json", .write build.indexManifest, [some "imdisk"]⟩]
    let seed ← usable (entries ≠ []) build.testMode
      [⟨"mast-indexes", .tree entries, [some "imdisk"]⟩]
    some (manifest ++ seed)
  else some []

/-- The smoke frame, for either of two modules. -/
def BuildInputs.frameBlocks : Option (List (Block Content)) :=
  let owners := ["astrometry", "mast-validation"].filter fun name => build.has name
  if owners = [] then some []
  else
    match build.fullFrame with
    | some content => some [⟨"full-frame.fits", .link content, owners.map some⟩]
    | none => usable false build.testMode []

/-- The catalog installer and its data. -/
def BuildInputs.catalogBlocks : Option (List (Block Content)) :=
  if build.has "planewave" then
    match build.catalog, build.catalogData with
    | some content, some data =>
      some [⟨"Setup_PlateSolve3_Catalog.exe", .link content, [some "planewave"]⟩,
        ⟨"Setup_PlateSolve3_Catalog-1.bin", .link data, [some "planewave"]⟩]
    | _, _ => usable false build.testMode []
  else some []

/-- The frozen package cache. -/
def BuildInputs.cygwinBlocks : Option (List (Block Content)) :=
  let entries := build.assetTreeEntries build.cygwin
  if build.has "astrometry-dependencies" then
    usable (entries.any fun entry => likeSuffix build.fold "setup.ini" entry.1) build.testMode
      [⟨"cygwin-pkg-cache", .tree entries, [some "astrometry-dependencies"]⟩]
  else some []

/-- The blocks before the staging directory is accounted for. -/
def BuildInputs.blocks : Option (List (Block Content)) := do
  let license ← build.licenseBlocks
  let sxs ← build.sxsBlocks
  let wheels ← build.wheelBlocks
  let index ← build.indexBlocks
  let frame ← build.frameBlocks
  let catalog ← build.catalogBlocks
  let cygwin ← build.cygwinBlocks
  some (license ++ sxs ++ wheels ++ index ++ frame ++ catalog ++ cygwin)

/-- The blocks after that. -/
def BuildInputs.lastBlocks : List (Block Content) :=
  [⟨"commands.json", .write build.commands, [none]⟩,
    ⟨"build-manifest.json", .write build.manifest, [none]⟩]

/-- The steps of a build; `none` when it stops. -/
def BuildInputs.plan : Option (List (Action Content)) := do
  let client ← clientScripts.mapM build.clientActions
  let modules ← build.modules.mapM build.moduleActions
  let blocks ← build.blocks
  some (client.flatten ++ modules.flatten ++ blocks.flatMap build.blockActions ++ [.account] ++
    build.lastBlocks.flatMap build.blockActions)

end Plan

section Runs

/-- A name added to a record, unless it is there. -/
def addName (fold : Char → Char) (names : List String) (name : String) : List String :=
  if names.any fun other => foldText fold other = foldText fold name then names else names ++ [name]

/-- A root entry added to a record. -/
def addSlot (fold : Char → Char) (names : PayloadNames) (bucket : Bucket) (name : String) :
    PayloadNames :=
  match bucket with
  | .files => { names with files := addName fold names.files name }
  | .dirs => { names with dirs := addName fold names.dirs name }

/-- `Add-MastStagedPayload`, or `Add-MastAlwaysStagedPayload` without an owner; `none` when it
throws. -/
def StageDir.claim (fold : Char → Char) (staging : StageDir Content) (owner : Option String)
    (bucket : Bucket) (name : String) : Option (StageDir Content) :=
  if isBlank name || name.toList.any isSeparator then none
  else
    match owner with
    | none => some { staging with always := addSlot fold staging.always bucket name }
    | some module =>
      if isBlank module then none
      else some { staging with
        payload := OrderedDict.upsert (foldText fold) staging.payload module ⟨[], []⟩ fun names =>
          addSlot fold names bucket name }

/-- `Get-MastUnattributedStagedEntries`, the names. -/
def StageDir.unattributed (fold : Char → Char) (staging : StageDir Content) : List String :=
  let names := staging.payload.map Prod.snd ++ [staging.always]
  let claimed := names.flatMap fun names => (names.files ++ names.dirs).map (foldText fold)
  (staging.files.map fun file => file.1.headD "").filter (· ∉ claimed)

/-- `New-LinkOrCopy`. -/
def StageDir.link (staging : StageDir Content) (path : List String) (content : Content) :
    Option (StageDir Content) := do
  let files ← PathFiles.put staging.files (path, content)
  some { staging with files }

/-- A file that is copied or written; `none` when there is a directory. -/
def StageDir.write (staging : StageDir Content) (path : List String) (content : Content) :
    Option (StageDir Content) :=
  if ∃ file ∈ staging.files, path <+: file.1 ∧ file.1 ≠ path then none
  else staging.link path content

/-- A step of staging; `none` when it throws. -/
def Action.run (fold : Char → Char) (staging : StageDir Content) :
    Action Content → Option (StageDir Content)
  | .link path content => staging.link path content
  | .write path content => staging.write path content
  | .claim owner bucket name => staging.claim fold owner bucket name
  | .account => if staging.unattributed fold = [] then some staging else none

/-- What a build stages; `none` when it stops. -/
def BuildInputs.run (build : BuildInputs Content) : Option (StageDir Content) := do
  let actions ← build.plan
  actions.foldlM (Action.run build.fold) ⟨[], [], ⟨[], []⟩⟩

end Runs

end MastProvisioning.Build.LeafStaging
