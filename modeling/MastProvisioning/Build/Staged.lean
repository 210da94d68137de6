import Mathlib.Data.List.Sort
import MastProvisioning.Build.Manifest

/-!
# The staged payload and its module hashes

What a build stages goes beyond what its module hashes cover. `Get-ModuleContentHash`
reads a module's command files, repo files, commands and version; entries staged
for a module by the build itself (a licence, an index set, a wheelhouse) are
attributed to it in `module_payload` but are not among the hashed lines.
-/

namespace MastProvisioning.Build

open MastProvisioning.Collections MastProvisioning.PowerShell

/-- What `Get-ModuleContentHash` is given for a module. A command file may be
absent; a repo file may not. -/
structure ModuleSource where
  commandFiles : List (String × Option String)
  repoFiles : List (String × String)
  commands : List String
  version : String

/-- `-replace '\\','/'`. -/
def slashes (path : String) : String :=
  String.ofList (path.toList.map fun character => if character = '\\' then '/' else character)

/-- The lines that are hashed for a module. -/
def contentHashLines (sha256 : String → String) (source : ModuleSource) : List String :=
  let byName : {Content : Type} → List (String × Content) → List (String × Content) :=
    fun files => (files.filter fun file => file.1 ≠ "").insertionSort
      fun file other => foldCase file.1 ≤ foldCase other.1
  (byName source.commandFiles).map (fun file =>
      match file.2 with
      | none => "file:" ++ slashes file.1 ++ ":absent"
      | some content => "file:" ++ slashes file.1 ++ ":" ++ sha256 content)
    ++ (byName source.repoFiles).map (fun file =>
      "repofile:" ++ slashes file.1 ++ ":" ++ sha256 file.2)
    ++ (source.commands.filter (· ≠ "")).map ("cmd:" ++ ·)
    ++ ["version:" ++ source.version]

/-- `Get-ModuleContentHash`. -/
def getModuleContentHash (sha256 : String → String) (source : ModuleSource) : String :=
  sha256 (String.ofList ((contentHashLines sha256 source).flatMap fun line => line.toList ++ ['\n']))

/-- A complete build with what it stages and what its module hashes were taken of. -/
structure StagedBuild (fold : Char → Char) (sha256 : String → String) (Content : Type) extends
    CompleteBuild fold where
  content : Bucket × String → Content
  source : String → ModuleSource
  hash_source : ∀ name ∈ manifest.modules, ∀ built,
    OrderedDict.get? id manifest.moduleState name = some built →
      built.hash = getModuleContentHash sha256 (source name)

variable {fold : Char → Char} {sha256 : String → String} {Content : Type}

/-- The entries a build attributes to a module, with their bytes. -/
def StagedBuild.entries (payload : StagedBuild fold sha256 Content) (name : String) :
    List ((Bucket × String) × Content) :=
  (payload.manifest.attributed name).map fun slot => (slot, payload.content slot)

end MastProvisioning.Build
