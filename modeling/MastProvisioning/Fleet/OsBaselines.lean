import MastProvisioning.Semantics.System
import Mathlib

/-!
# Proposals of OS baselines

A baseline names the update files that define a patch level. A proposal resolves the
updates a build declares, lands each file in the asset cache and writes down what the
files hash to; a baseline that is there is not replaced.

The cache is keyed by the file's name, the baseline by the build and the month, and
whether a proposal says nothing new is asked of two lists in their order.

The machine's files are a map of places; which place a path denotes is left open. The
digests are parameters.
-/

namespace MastProvisioning.Fleet.OsBaselines

open MastProvisioning.Semantics

/-- The contents of a file. -/
abbrev Bytes := List UInt8

section Records

inductive UpdateRole where
  | lcu
  | dotnet
deriving DecidableEq, Repr

structure DeclaredUpdate where
  role : UpdateRole
  msrcProduct : String
  catalogTitle : String
deriving DecidableEq, Repr

structure DeclaredBuild where
  build : Nat
  updates : List DeclaredUpdate
deriving DecidableEq, Repr

structure MsrcRelease where
  releaseId : String
  initialReleaseDate : String
deriving DecidableEq, Repr

structure MsrcFix where
  kb : String
  fixedBuild : String
deriving DecidableEq, Repr

structure CatalogRow where
  updateId : String
  title : String
deriving DecidableEq, Repr

structure CatalogFile where
  url : String
  filename : String
  sha1 : String
deriving DecidableEq, Repr

structure Resolved where
  role : UpdateRole
  fix : MsrcFix
  row : CatalogRow
  file : CatalogFile
deriving DecidableEq, Repr

structure BaselineFile where
  role : UpdateRole
  kb : String
  fixedBuild : String
  catalogUpdateId : String
  url : String
  filename : String
  path : String
  sha1 : String
  sha256 : String
  size : Nat
deriving DecidableEq, Repr

structure Baseline where
  baselineId : String
  build : Nat
  targetUbr : Nat
  msrcRelease : String
  msrcReleaseDate : String
  proposedUtc : String
  files : List BaselineFile
deriving DecidableEq, Repr

end Records

section Answers

/-- What a download leaves in the file it writes, and how it ends. -/
inductive Download where
  /-- It raises; the file may not even be opened. -/
  | failed (written : Option Bytes) (message : String)
  | delivered (bytes : Bytes)
deriving DecidableEq, Repr

/-- What the feed and the Catalog answer to the requests for the update at a place of the
list, as the pages are parsed. The same request may be answered otherwise at another one. -/
structure Http where
  fixForProduct : Nat → String → Except String MsrcFix
  selectRow : Nat → String → String → Except String CatalogRow
  downloadDialog : Nat → String → Except String CatalogFile
  download : Nat → String → Download

/-- One update of `resolve`. -/
def resolveUpdate (http : Http) (place : Nat) (update : DeclaredUpdate) : Except String Resolved := do
  let fix ← http.fixForProduct place update.msrcProduct
  let row ← http.selectRow place fix.kb update.catalogTitle
  let file ← http.downloadDialog place row.updateId
  return { role := update.role, fix, row, file }

/-- `resolve`, from a place of the list on. -/
def resolveFrom (http : Http) : Nat → List DeclaredUpdate → Except String (List Resolved)
  | _, [] => .ok []
  | place, update :: rest =>
    match resolveUpdate http place update with
    | .error message => .error message
    | .ok resolved => (resolveFrom http (place + 1) rest).map (resolved :: ·)

/-- A number, as a text of digits has it. -/
def parseNumber (digits : List Char) : Option Nat :=
  if digits ≠ [] ∧ digits.all Char.isDigit then
    some (digits.foldl (fun value digit => value * 10 + (digit.toNat - 48)) 0)
  else none

/-- `^10\.0\.(\d+)\.(\d+)$`; the end may be a line feed. -/
def matchFixedBuild (text : String) : Option (Nat × Nat) :=
  match text.toList.splitOn '.' with
  | [['1', '0'], ['0'], build, revision] =>
    let digits := if revision.getLast? = some '\n' then revision.dropLast else revision
    match parseNumber build, parseNumber digits with
    | some build, some revision => some (build, revision)
    | _, _ => none
  | _ => none

def targetUbr (fix : MsrcFix) (build : Nat) : Except String Nat :=
  match matchFixedBuild fix.fixedBuild with
  | some (fixed, revision) =>
    if fixed = build then .ok revision
    else .error ("KB" ++ fix.kb ++ " fixes to '" ++ fix.fixedBuild ++ "', not a 10.0." ++
      toString build ++ ".UBR build")
  | none =>
    .error ("KB" ++ fix.kb ++ " fixes to '" ++ fix.fixedBuild ++ "', not a 10.0." ++
      toString build ++ ".UBR build")

end Answers

section Files

variable {Place : Type} [DecidableEq Place]

/-- The places of the cache that paths and their `.part` files denote. -/
structure Layout (Place : Type) where
  dest : String → Place
  part : String → Place
  apart : ∀ path, part path ≠ dest path

/-- The digests of `hashlib`. -/
structure Digests where
  sha1 : Bytes → String
  sha256 : Bytes → String

/-- The files of the asset cache. -/
abbrev Cache (Place : Type) := Place → Option Bytes

/-- The key of a file in the cache. -/
def assetKey (build : Nat) (filename : String) : String :=
  "server/providers/windows-updates/assets/" ++ toString build ++ "/" ++ filename

/-- What a baseline says of a file with these bytes. -/
def baselineFile (digests : Digests) (build : Nat) (resolved : Resolved) (bytes : Bytes) :
    BaselineFile where
  role := resolved.role
  kb := resolved.fix.kb
  fixedBuild := resolved.fix.fixedBuild
  catalogUpdateId := resolved.row.updateId
  url := resolved.file.url
  filename := resolved.file.filename
  path := assetKey build resolved.file.filename
  sha1 := resolved.file.sha1
  sha256 := digests.sha256 bytes
  size := bytes.length

/-- `fetch`. -/
def fetch (layout : Layout Place) (digests : Digests) (build : Nat) (resolved : Resolved)
    (download : Download) (cache : Cache Place) : Cache Place × Except String BaselineFile :=
  let key := assetKey build resolved.file.filename
  let landed := match cache (layout.dest key) with
    | some bytes => if digests.sha1 bytes = resolved.file.sha1 then some bytes else none
    | none => none
  match landed with
  | some bytes => (cache, .ok (baselineFile digests build resolved bytes))
  | none =>
    match download with
    | .failed none message => (cache, .error message)
    | .failed (some bytes) message =>
      (Function.update cache (layout.part key) (some bytes), .error message)
    | .delivered bytes =>
      let unlinked := Function.update cache (layout.part key) none
      if digests.sha1 bytes = resolved.file.sha1 then
        (Function.update unlinked (layout.dest key) (some bytes),
          .ok (baselineFile digests build resolved bytes))
      else
        (unlinked, .error (resolved.file.filename ++ ": SHA1 " ++ digests.sha1 bytes ++
          " does not match the Catalog's " ++ resolved.file.sha1))

/-- The files of a proposal, from a place of the list on; the first that fails ends it. -/
def fetchFrom (layout : Layout Place) (digests : Digests) (http : Http) (build : Nat) :
    Nat → List Resolved → Cache Place → Cache Place × Except String (List BaselineFile)
  | _, [], cache => (cache, .ok [])
  | place, resolved :: rest, cache =>
    match fetch layout digests build resolved (http.download place resolved.file.url) cache with
    | (after, .error message) => (after, .error message)
    | (after, .ok file) =>
      let later := fetchFrom layout digests http build (place + 1) rest after
      (later.1, later.2.map (file :: ·))

/-- The build and the month. -/
def baselineId (build : Nat) (release : MsrcRelease) : String :=
  toString build ++ "-" ++ String.ofList (release.initialReleaseDate.toList.take 7)

/-- A run of `propose`: what is declared, the release, the answers, the time, and whether
the file of a new baseline can be written. -/
structure Proposal where
  declared : DeclaredBuild
  release : MsrcRelease
  http : Http
  now : String
  writable : Bool

/-- `propose`. -/
def propose (layout : Layout Place) (digests : Digests) (proposal : Proposal)
    (cache : Cache Place) : Cache Place × Except String Baseline :=
  match resolveFrom proposal.http 0 proposal.declared.updates with
  | .error message => (cache, .error message)
  | .ok resolved =>
    match resolved.filter fun update => update.role = .lcu with
    | [lcu] =>
      match targetUbr lcu.fix proposal.declared.build with
      | .error message => (cache, .error message)
      | .ok ubr =>
        let fetched := fetchFrom layout digests proposal.http proposal.declared.build 0 resolved cache
        (fetched.1, fetched.2.map fun files =>
          { baselineId := baselineId proposal.declared.build proposal.release
            build := proposal.declared.build
            targetUbr := ubr
            msrcRelease := proposal.release.releaseId
            msrcReleaseDate := proposal.release.initialReleaseDate
            proposedUtc := proposal.now
            files })
    | _ =>
      (cache, .error ("build " ++ toString proposal.declared.build ++
        " must declare exactly one lcu update"))

/-- The file of a baseline: the directory of its build and its id. -/
abbrev BaselineKey := Nat × String

/-- The cache and the baselines. -/
structure Machine (Place : Type) where
  cache : Cache Place
  baselines : BaselineKey → Option Baseline

def keyOf (proposal : Proposal) : BaselineKey :=
  (proposal.declared.build, baselineId proposal.declared.build proposal.release)

/-- `write_baseline`. -/
def writeBaseline (writable : Bool) (baseline : Baseline) (baselines : BaselineKey → Option Baseline) :
    (BaselineKey → Option Baseline) × Except String BaselineKey :=
  let dest := (baseline.build, baseline.baselineId)
  match baselines dest with
  | some existing =>
    if existing.files = baseline.files then (baselines, .ok dest)
    else (baselines, .error (baseline.baselineId ++
      " already exists with different files; Microsoft re-released a KB"))
  | none =>
    if writable then (Function.update baselines dest (some baseline), .ok dest)
    else (baselines, .error "the baseline could not be written")

/-- The whole command. -/
def run (layout : Layout Place) (digests : Digests) (proposal : Proposal) (machine : Machine Place) :
    Machine Place × Except String BaselineKey :=
  match propose layout digests proposal machine.cache with
  | (cache, .error message) => ({ machine with cache }, .error message)
  | (cache, .ok baseline) =>
    let written := writeBaseline proposal.writable baseline machine.baselines
    ({ cache, baselines := written.1 }, written.2)

/-- Machines on which one proposal after another is run. -/
def proposals (layout : Layout Place) (digests : Digests) : System (Machine Place) Proposal where
  Initial := fun _ => True
  Enabled := fun _ _ => True
  next := fun machine proposal => (run layout digests proposal machine).1

end Files

section Purpose

variable {Place : Type} [DecidableEq Place]

/-- The file of an entry holds the bytes the entry says. -/
def Holds (layout : Layout Place) (digests : Digests) (cache : Cache Place) (file : BaselineFile) :
    Prop :=
  ∃ bytes, cache (layout.dest file.path) = some bytes ∧ digests.sha1 bytes = file.sha1 ∧
    digests.sha256 bytes = file.sha256 ∧ bytes.length = file.size

/-- Two lists have the same files. -/
def SameFiles (first second : List BaselineFile) : Prop :=
  ∀ file, file ∈ first ↔ file ∈ second

/-- What one proposal owes: a baseline that is written is true of the cache, one that is
there stays, and proposing its files again changes no baseline and succeeds. -/
structure StepSound (layout : Layout Place) (digests : Digests) (machine : Machine Place)
    (proposal : Proposal) : Prop where
  written : ∀ baseline, machine.baselines (keyOf proposal) = none →
    (run layout digests proposal machine).1.baselines (keyOf proposal) = some baseline →
    ∀ file ∈ baseline.files, Holds layout digests (run layout digests proposal machine).1.cache file
  kept : ∀ key existing, machine.baselines key = some existing →
    (run layout digests proposal machine).1.baselines key = some existing
  again : ∀ existing baseline, machine.baselines (keyOf proposal) = some existing →
    (propose layout digests proposal machine.cache).2 = .ok baseline →
    SameFiles existing.files baseline.files →
    (run layout digests proposal machine).2 = .ok (keyOf proposal) ∧
      (run layout digests proposal machine).1.baselines = machine.baselines

/-- An entry without what is read off the bytes. -/
def describe (file : BaselineFile) : BaselineFile :=
  { file with sha256 := "", size := 0 }

/-- What is known of an entry before its file is there. -/
def announced (build : Nat) (resolved : Resolved) : BaselineFile where
  role := resolved.role
  kb := resolved.fix.kb
  fixedBuild := resolved.fix.fixedBuild
  catalogUpdateId := resolved.row.updateId
  url := resolved.file.url
  filename := resolved.file.filename
  path := assetKey build resolved.file.filename
  sha1 := resolved.file.sha1
  sha256 := ""
  size := 0

/-- A proposal the command gets right: files of one place have one digest and no file is
another one's `.part` file; and a baseline that is there is one of this release, which lists
the same updates in the same order if it lists the same ones. -/
structure Proper (layout : Layout Place) (machine : Machine Place) (proposal : Proposal) : Prop where
  sameDigest : ∀ resolved, resolveFrom proposal.http 0 proposal.declared.updates = .ok resolved →
    ∀ first ∈ resolved, ∀ second ∈ resolved,
      layout.dest (assetKey proposal.declared.build first.file.filename) =
        layout.dest (assetKey proposal.declared.build second.file.filename) →
      first.file.sha1 = second.file.sha1
  noPart : ∀ resolved, resolveFrom proposal.http 0 proposal.declared.updates = .ok resolved →
    ∀ first ∈ resolved, ∀ second ∈ resolved,
      layout.part (assetKey proposal.declared.build first.file.filename) ≠
        layout.dest (assetKey proposal.declared.build second.file.filename)
  release : ∀ existing, machine.baselines (keyOf proposal) = some existing →
    existing.msrcRelease = proposal.release.releaseId
  order : ∀ existing resolved, machine.baselines (keyOf proposal) = some existing →
    resolveFrom proposal.http 0 proposal.declared.updates = .ok resolved →
    (∀ entry, entry ∈ existing.files.map describe ↔
      entry ∈ resolved.map (announced proposal.declared.build)) →
    existing.files.map describe = resolved.map (announced proposal.declared.build)

end Purpose

section Fetching

variable {Place : Type} [DecidableEq Place] {layout : Layout Place} {digests : Digests}
  {build : Nat} {resolved : Resolved} {download : Download} {cache : Cache Place}

theorem describe_baselineFile (bytes : Bytes) :
    describe (baselineFile digests build resolved bytes) = announced build resolved := rfl

/-- A file that is there with its digest is not downloaded again. -/
theorem fetch_landed {bytes : Bytes}
    (found : cache (layout.dest (assetKey build resolved.file.filename)) = some bytes)
    (same : digests.sha1 bytes = resolved.file.sha1) :
    fetch layout digests build resolved download cache =
      (cache, .ok (baselineFile digests build resolved bytes)) := by
  simp only [fetch, found, if_pos same]

/-- A fetch that fails leaves the file as it was. -/
theorem fetch_failed {message : String}
    (failed : (fetch layout digests build resolved download cache).2 = .error message) :
    (fetch layout digests build resolved download cache).1
        (layout.dest (assetKey build resolved.file.filename)) =
      cache (layout.dest (assetKey build resolved.file.filename)) := by
  have apart := (layout.apart (assetKey build resolved.file.filename)).symm
  unfold fetch at failed ⊢
  simp only at failed ⊢
  split
  · rfl
  · rename_i absent
    rw [absent] at failed
    cases download with
    | failed written message =>
      cases written with
      | none => rfl
      | some bytes => exact Function.update_of_ne apart _ _
    | delivered bytes =>
      by_cases same : digests.sha1 bytes = resolved.file.sha1
      · simp [same] at failed
      · simp only [if_neg same]
        exact Function.update_of_ne apart _ _

/-- A fetch that succeeds gives an entry that the cache holds. -/
theorem fetch_ok {file : BaselineFile}
    (fetched : (fetch layout digests build resolved download cache).2 = .ok file) :
    describe file = announced build resolved ∧
      Holds layout digests (fetch layout digests build resolved download cache).1 file := by
  unfold fetch at fetched ⊢
  simp only at fetched ⊢
  split
  · rename_i bytes landed
    rw [landed] at fetched
    cases fetched
    split at landed
    · rename_i bytes' found
      split at landed
      · rename_i same
        cases landed
        exact ⟨rfl, bytes, found, same, rfl, rfl⟩
      · cases landed
    · cases landed
  · rename_i absent
    rw [absent] at fetched
    cases download with
    | failed written message => cases written <;> cases fetched
    | delivered bytes =>
      by_cases same : digests.sha1 bytes = resolved.file.sha1
      · simp only [if_pos same] at fetched ⊢
        cases fetched
        exact ⟨rfl, bytes, Function.update_self _ _ _, same, rfl, rfl⟩
      · simp [same] at fetched

/-- A fetch touches its own file and the `.part` of it, and nothing else. -/
theorem fetch_frame {place : Place}
    (notDest : place ≠ layout.dest (assetKey build resolved.file.filename))
    (notPart : place ≠ layout.part (assetKey build resolved.file.filename)) :
    (fetch layout digests build resolved download cache).1 place = cache place := by
  unfold fetch
  simp only
  split
  · rfl
  · cases download with
    | failed written message =>
      cases written with
      | none => rfl
      | some bytes => exact Function.update_of_ne notPart _ _
    | delivered bytes =>
      by_cases same : digests.sha1 bytes = resolved.file.sha1
      · simp only [if_pos same]
        rw [Function.update_of_ne notDest, Function.update_of_ne notPart]
      · simp only [if_neg same]
        exact Function.update_of_ne notPart _ _

/-- An entry keeps its file over a fetch of the same digest or of another place. -/
theorem Holds.fetch {file : BaselineFile} (holds : Holds layout digests cache file)
    (sameDigest : layout.dest (assetKey build resolved.file.filename) = layout.dest file.path →
      resolved.file.sha1 = file.sha1)
    (notPart : layout.part (assetKey build resolved.file.filename) ≠ layout.dest file.path) :
    Holds layout digests (fetch layout digests build resolved download cache).1 file := by
  obtain ⟨bytes, found, sha1, sha256, size⟩ := holds
  by_cases here : layout.dest (assetKey build resolved.file.filename) = layout.dest file.path
  · have landed : cache (layout.dest (assetKey build resolved.file.filename)) = some bytes := by
      rw [here, found]
    rw [fetch_landed landed (sha1.trans (sameDigest here).symm)]
    exact ⟨bytes, found, sha1, sha256, size⟩
  · have kept : (OsBaselines.fetch layout digests build resolved download cache).1
        (layout.dest file.path) = cache (layout.dest file.path) :=
      fetch_frame (Ne.symm here) notPart.symm
    exact ⟨bytes, kept.trans found, sha1, sha256, size⟩

end Fetching

section Listing

variable {Place : Type} [DecidableEq Place] {layout : Layout Place} {digests : Digests}
  {http : Http} {build place : Nat} {resolved : List Resolved} {cache : Cache Place}
  {files : List BaselineFile}

/-- An entry keeps its file over the fetches of a list, by induction on it. -/
theorem Holds.fetchFrom {file : BaselineFile} (holds : Holds layout digests cache file)
    (sameDigest : ∀ other ∈ resolved,
      layout.dest (assetKey build other.file.filename) = layout.dest file.path →
        other.file.sha1 = file.sha1)
    (notPart : ∀ other ∈ resolved,
      layout.part (assetKey build other.file.filename) ≠ layout.dest file.path) :
    Holds layout digests (fetchFrom layout digests http build place resolved cache).1 file := by
  induction resolved generalizing place cache with
  | nil => exact holds
  | cons first rest ih =>
    obtain ⟨digestHere, digestLater⟩ := List.forall_mem_cons.mp sameDigest
    obtain ⟨partHere, partLater⟩ := List.forall_mem_cons.mp notPart
    have after : Holds layout digests (OsBaselines.fetch layout digests build first
        (http.download place first.file.url) cache).1 file := holds.fetch digestHere partHere
    rw [OsBaselines.fetchFrom]
    split
    · rename_i next message fetched
      rw [fetched] at after
      exact after
    · rename_i next entry fetched
      rw [fetched] at after
      exact ih after digestLater partLater

/-- The entries of a list that was fetched are the ones announced, in its order. -/
theorem describe_fetchFrom
    (fetched : (fetchFrom layout digests http build place resolved cache).2 = .ok files) :
    files.map describe = resolved.map (announced build) := by
  induction resolved generalizing place cache files with
  | nil =>
    cases fetched
    rfl
  | cons first rest ih =>
    rw [fetchFrom] at fetched
    split at fetched
    · cases fetched
    · rename_i next entry here
      have described := (fetch_ok (congrArg Prod.snd here)).1
      simp only at fetched
      cases later : (fetchFrom layout digests http build (place + 1) rest next).2 with
      | error message =>
        rw [later] at fetched
        cases fetched
      | ok others =>
        rw [later] at fetched
        cases fetched
        rw [List.map_cons, List.map_cons, described, ih later]

/-- The cache holds every entry of a list that was fetched: a later fetch of the same place
asks for the digest that is there. -/
theorem holds_fetchFrom
    (sameDigest : ∀ first ∈ resolved, ∀ second ∈ resolved,
      layout.dest (assetKey build first.file.filename) =
        layout.dest (assetKey build second.file.filename) → first.file.sha1 = second.file.sha1)
    (notPart : ∀ first ∈ resolved, ∀ second ∈ resolved,
      layout.part (assetKey build first.file.filename) ≠
        layout.dest (assetKey build second.file.filename))
    (fetched : (fetchFrom layout digests http build place resolved cache).2 = .ok files) :
    ∀ file ∈ files,
      Holds layout digests (fetchFrom layout digests http build place resolved cache).1 file := by
  induction resolved generalizing place cache files with
  | nil =>
    cases fetched
    exact List.forall_mem_nil _
  | cons first rest ih =>
    rw [fetchFrom] at fetched ⊢
    split at fetched
    · cases fetched
    · rename_i next entry here
      obtain ⟨described, holds⟩ := fetch_ok (congrArg Prod.snd here)
      rw [here] at holds
      simp only at fetched holds ⊢
      cases later : (fetchFrom layout digests http build (place + 1) rest next).2 with
      | error message =>
        rw [later] at fetched
        cases fetched
      | ok others =>
        rw [later] at fetched
        cases fetched
        have path : entry.path = assetKey build first.file.filename :=
          congrArg BaselineFile.path described
        have sha1 : entry.sha1 = first.file.sha1 := congrArg BaselineFile.sha1 described
        refine List.forall_mem_cons.mpr ⟨holds.fetchFrom ?_ ?_, ?_⟩
        · intro other member same
          rw [path] at same
          rw [sha1]
          exact sameDigest other (List.mem_cons_of_mem _ member) first List.mem_cons_self same
        · intro other member
          rw [path]
          exact notPart other (List.mem_cons_of_mem _ member) first List.mem_cons_self
        · exact ih (fun one member two => sameDigest one (List.mem_cons_of_mem _ member) two ∘
            List.mem_cons_of_mem _) (fun one member two => notPart one
            (List.mem_cons_of_mem _ member) two ∘ List.mem_cons_of_mem _) later

end Listing

section Proposing

variable {Place : Type} [DecidableEq Place] {layout : Layout Place} {digests : Digests}
  {proposal : Proposal} {machine : Machine Place} {cache : Cache Place} {baseline : Baseline}

/-- What a proposal that comes to an end proposes. -/
theorem propose_ok (proposed : (propose layout digests proposal cache).2 = .ok baseline) :
    ∃ resolved, resolveFrom proposal.http 0 proposal.declared.updates = .ok resolved ∧
      (baseline.build, baseline.baselineId) = keyOf proposal ∧
      baseline.msrcRelease = proposal.release.releaseId ∧
      (fetchFrom layout digests proposal.http proposal.declared.build 0 resolved cache).2 =
        .ok baseline.files ∧
      (propose layout digests proposal cache).1 =
        (fetchFrom layout digests proposal.http proposal.declared.build 0 resolved cache).1 := by
  unfold propose at proposed ⊢
  split at proposed
  · cases proposed
  · rename_i resolved found
    split at proposed
    · rename_i lcu only
      split at proposed
      · cases proposed
      · rename_i ubr
        simp only at proposed
        obtain ⟨files, fetched, rfl⟩ : ∃ files,
            (fetchFrom layout digests proposal.http proposal.declared.build 0 resolved cache).2 =
              .ok files ∧ _ = baseline := by
          cases fetched : (fetchFrom layout digests proposal.http proposal.declared.build 0 resolved
              cache).2 with
          | error message =>
            rw [fetched] at proposed
            cases proposed
          | ok files =>
            rw [fetched] at proposed
            exact ⟨files, rfl, Except.ok.inj proposed⟩
        exact ⟨resolved, found, rfl, rfl, fetched, rfl⟩
    · cases proposed

/-- The entries of a proper proposal, as they are announced and held by the cache. -/
theorem Proper.proposed (proper : Proper layout machine proposal)
    (proposed : (propose layout digests proposal machine.cache).2 = .ok baseline) :
    ∃ resolved, resolveFrom proposal.http 0 proposal.declared.updates = .ok resolved ∧
      baseline.files.map describe = resolved.map (announced proposal.declared.build) ∧
      ∀ file ∈ baseline.files,
        Holds layout digests (propose layout digests proposal machine.cache).1 file := by
  obtain ⟨resolved, found, -, -, fetched, after⟩ := propose_ok proposed
  refine ⟨resolved, found, describe_fetchFrom fetched, ?_⟩
  rw [after]
  exact holds_fetchFrom (proper.sameDigest resolved found) (proper.noPart resolved found) fetched

omit [DecidableEq Place] in
/-- Two entries that one cache holds and that are announced alike are the same. -/
theorem eq_of_describe {first second : BaselineFile} (holds : Holds layout digests cache first)
    (holdsSecond : Holds layout digests cache second) (same : describe first = describe second) :
    first = second := by
  obtain ⟨bytes, found, -, sha256, size⟩ := holds
  obtain ⟨bytesSecond, foundSecond, -, sha256Second, sizeSecond⟩ := holdsSecond
  have path : first.path = second.path :=
    show (describe first).path = (describe second).path from congrArg BaselineFile.path same
  have sameBytes : bytes = bytesSecond := by
    rw [path, foundSecond] at found
    exact (Option.some.inj found).symm
  have digest : first.sha256 = second.sha256 := by rw [← sha256, ← sha256Second, sameBytes]
  have length : first.size = second.size := by rw [← size, ← sizeSecond, sameBytes]
  cases first
  cases second
  simp only [describe, BaselineFile.mk.injEq] at same digest length ⊢
  grind

theorem eq_of_map_describe {first second : List BaselineFile}
    (alike : ∀ one ∈ first, ∀ two ∈ second, describe one = describe two → one = two)
    (same : first.map describe = second.map describe) : first = second := by
  induction first generalizing second with
  | nil => exact (List.map_eq_nil_iff.mp same.symm).symm
  | cons one first ih =>
    cases second with
    | nil => cases same
    | cons two second =>
      obtain ⟨here, later⟩ := List.cons.inj same
      have rest := ih (fun one member two memberTwo =>
        alike one (List.mem_cons_of_mem _ member) two (List.mem_cons_of_mem _ memberTwo)) later
      rw [alike one List.mem_cons_self two List.mem_cons_self here, rest]

/-- A baseline with the files of a proper proposal lists them as it does. -/
theorem Proper.files_eq {existing : Baseline} (proper : Proper layout machine proposal)
    (there : machine.baselines (keyOf proposal) = some existing)
    (proposed : (propose layout digests proposal machine.cache).2 = .ok baseline)
    (same : SameFiles existing.files baseline.files) : existing.files = baseline.files := by
  obtain ⟨resolved, found, announced, holds⟩ := proper.proposed proposed
  have described : existing.files.map describe = baseline.files.map describe := by
    rw [announced]
    apply proper.order existing resolved there found
    intro entry
    rw [← announced, List.mem_map, List.mem_map]
    exact exists_congr fun file => and_congr_left fun _ => same file
  refine eq_of_map_describe ?_ described
  intro one member two memberTwo alike
  exact eq_of_describe (holds one ((same one).mp member)) (holds two memberTwo) alike

/-- The whole command, when a baseline is proposed. -/
theorem run_of_proposed (proposed : (propose layout digests proposal machine.cache).2 = .ok baseline) :
    run layout digests proposal machine =
      ({ cache := (propose layout digests proposal machine.cache).1
         baselines := (writeBaseline proposal.writable baseline machine.baselines).1 },
        (writeBaseline proposal.writable baseline machine.baselines).2) := by
  unfold run
  cases result : propose layout digests proposal machine.cache with
  | mk cache outcome =>
    rw [result] at proposed
    simp only at proposed
    subst proposed
    rfl

theorem run_of_failed {message : String}
    (failed : (propose layout digests proposal machine.cache).2 = .error message) :
    (run layout digests proposal machine).1.baselines = machine.baselines ∧
      (run layout digests proposal machine).2 = .error message := by
  unfold run
  cases result : propose layout digests proposal machine.cache with
  | mk cache outcome =>
    rw [result] at failed
    simp only at failed
    subst failed
    exact ⟨rfl, rfl⟩

/-- A baseline that is there stays, whatever is proposed. -/
theorem baseline_kept {key : BaselineKey} {existing : Baseline}
    (there : machine.baselines key = some existing) :
    (run layout digests proposal machine).1.baselines key = some existing := by
  cases proposed : (propose layout digests proposal machine.cache).2 with
  | error message => rw [(run_of_failed proposed).1, there]
  | ok baseline =>
    rw [run_of_proposed proposed]
    simp only [writeBaseline]
    split
    · split <;> exact there
    · rename_i absent
      split
      · have other : key ≠ (baseline.build, baseline.baselineId) := by
          rintro rfl
          rw [absent] at there
          cases there
        exact (Function.update_of_ne other _ _).trans there
      · exact there

/-- A proper proposal does what it owes. -/
theorem Proper.sound (proper : Proper layout machine proposal) :
    StepSound layout digests machine proposal := by
  constructor
  · intro baseline absent there
    cases proposed : (propose layout digests proposal machine.cache).2 with
    | error message =>
      rw [(run_of_failed proposed).1, absent] at there
      cases there
    | ok wanted =>
      obtain ⟨resolved, -, key, -⟩ := propose_ok proposed
      obtain ⟨-, -, -, holds⟩ := proper.proposed proposed
      rw [run_of_proposed proposed] at there ⊢
      simp only [writeBaseline, key, absent] at there
      split at there
      · simp only [Function.update_self, Option.some.injEq] at there
        rw [← there]
        exact holds
      · change machine.baselines (keyOf proposal) = some baseline at there
        rw [absent] at there
        cases there
  · exact fun key existing there => baseline_kept there
  · intro existing baseline there proposed same
    obtain ⟨resolved, -, key, -⟩ := propose_ok proposed
    rw [run_of_proposed proposed]
    simp only [writeBaseline, key, there, if_pos (proper.files_eq there proposed same), and_self]

/-- A proper proposal that succeeds leaves a baseline of its release. -/
theorem Proper.release_kept {key : BaselineKey} (proper : Proper layout machine proposal)
    (succeeded : (run layout digests proposal machine).2 = .ok key) :
    ∃ baseline, (run layout digests proposal machine).1.baselines key = some baseline ∧
      baseline.msrcRelease = proposal.release.releaseId := by
  cases proposed : (propose layout digests proposal machine.cache).2 with
  | error message =>
    rw [(run_of_failed proposed).2] at succeeded
    cases succeeded
  | ok baseline =>
    obtain ⟨resolved, -, isKey, release, -⟩ := propose_ok proposed
    rw [run_of_proposed proposed] at succeeded ⊢
    simp only [writeBaseline, isKey] at succeeded ⊢
    cases there : machine.baselines (keyOf proposal) with
    | some existing =>
      simp only [there] at succeeded ⊢
      split at succeeded
      · cases succeeded
        rw [if_pos ‹_›]
        exact ⟨existing, there, proper.release existing there⟩
      · cases succeeded
    | none =>
      simp only [there] at succeeded ⊢
      split at succeeded
      · cases succeeded
        rw [if_pos ‹_›]
        exact ⟨baseline, Function.update_self _ _ _, release⟩
      · cases succeeded

end Proposing

section Runs

variable {Place : Type} [DecidableEq Place] {layout : Layout Place} {digests : Digests}
  {start final : Machine Place} {trace : List (System.Taken (Machine Place) Proposal)}

/-- Every proposal of a proper run that succeeded has left a baseline of its release, by
induction on the run: what is there stays. -/
theorem releases_of_run (taken : (proposals layout digests).Run start trace final)
    (proper : ∀ step ∈ trace, Proper layout step.1 step.2) :
    ∀ step ∈ trace, ∀ key, (run layout digests step.2 step.1).2 = .ok key →
      ∃ baseline, final.baselines key = some baseline ∧
        baseline.msrcRelease = step.2.release.releaseId := by
  induction taken with
  | initial => exact List.forall_mem_nil _
  | @step trace machine proposal prior enabled ih =>
    obtain ⟨earlier, last⟩ := List.forall_mem_append.mp proper
    intro step member key succeeded
    rcases List.mem_append.mp member with before | here
    · obtain ⟨baseline, there, release⟩ := ih earlier step before key succeeded
      exact ⟨baseline, baseline_kept there, release⟩
    · rw [List.mem_singleton.mp here] at succeeded ⊢
      exact (last _ (List.mem_singleton_self _)).release_kept succeeded

/-- Proposals that share a cache and the ids: a fetch that fails leaves its file; and in a
run of proper proposals each one does what it owes, and two that end with one baseline file
propose one release. -/
theorem proposals_sound (taken : (proposals layout digests).Run start trace final)
    (proper : ∀ step ∈ trace, Proper layout step.1 step.2) :
    (∀ build resolved download (cache : Cache Place) message,
      (fetch layout digests build resolved download cache).2 = .error message →
        (fetch layout digests build resolved download cache).1
            (layout.dest (assetKey build resolved.file.filename)) =
          cache (layout.dest (assetKey build resolved.file.filename))) ∧
    (∀ step ∈ trace, StepSound layout digests step.1 step.2) ∧
    ∀ first ∈ trace, ∀ second ∈ trace, ∀ key,
      (run layout digests first.2 first.1).2 = .ok key →
      (run layout digests second.2 second.1).2 = .ok key →
      first.2.release.releaseId = second.2.release.releaseId := by
  refine ⟨fun _ _ _ _ _ failed => fetch_failed failed,
    fun step member => (proper step member).sound, ?_⟩
  intro first firstMember second secondMember key succeeded succeededSecond
  obtain ⟨baseline, there, release⟩ := releases_of_run taken proper first firstMember key succeeded
  obtain ⟨again, thereAgain, releaseAgain⟩ :=
    releases_of_run taken proper second secondMember key succeededSecond
  rw [there] at thereAgain
  rw [← release, ← releaseAgain, Option.some.inj thereAgain]

end Runs

section Samples

/-- Paths that denote themselves. -/
def plainLayout : Layout String where
  dest := id
  part := fun path => path ++ ".part"
  apart := by
    intro path same
    have lengths := congrArg (fun text => text.toList.length) same
    simp at lengths

/-- The digests of the two contents the samples have: none, and the letter `a`. -/
def sampleDigests : Digests where
  sha1 := fun bytes =>
    if bytes = [] then "da39a3ee5e6b4b0d3255bfef95601890afd80709"
    else "86f7e437faa5a7fce15d1ddcb9eaeaea377667b8"
  sha256 := fun bytes =>
    if bytes = [] then "e3b0c44298fc1c149afbf4c8996fb92427ae41e4649b934ca495991b7852b855"
    else "ca978112ca1bbdcafac231b39a23dc4da786eff8147c4e72b9807785afee48bb"

/-- Updates in the order they are declared: the role, the name and the content. -/
def sampleProposal (releaseId : String) (updates : List (UpdateRole × String × Bytes)) :
    Proposal where
  declared :=
    { build := 19044
      updates := updates.map fun update =>
        { role := update.1, msrcProduct := "Windows", catalogTitle := update.2.1 } }
  release := { releaseId, initialReleaseDate := "2026-09-08T07:00:00Z" }
  http :=
    { fixForProduct := fun _ _ => .ok { kb := "5122878", fixedBuild := "10.0.19044.7725" }
      selectRow := fun _ kb title => .ok { updateId := kb, title }
      downloadDialog := fun place _ =>
        match updates[place]? with
        | some update =>
          .ok { url := "https://example/" ++ update.2.1, filename := update.2.1,
                sha1 := sampleDigests.sha1 update.2.2 }
        | none => .error "no row"
      download := fun place _ =>
        match updates[place]? with
        | some update => .delivered update.2.2
        | none => .failed none "no answer" }
  now := "2026-09-29T12:00:00Z"
  writable := true

def emptyMachine : Machine String where
  cache := fun _ => none
  baselines := fun _ => none

/-- The cumulative update, proposed twice. -/
def lcuProposal : Proposal :=
  sampleProposal "2026-Sep" [(.lcu, "lcu.msu", [])]

theorem proper_lcuProposal {machine : Machine String}
    (there : ∀ existing, machine.baselines (keyOf lcuProposal) = some existing →
      existing.msrcRelease = "2026-Sep" ∧ existing.files.length = 1) :
    Proper plainLayout machine lcuProposal := by
  have only : resolveFrom lcuProposal.http 0 lcuProposal.declared.updates =
      .ok [{ role := .lcu, fix := { kb := "5122878", fixedBuild := "10.0.19044.7725" },
             row := { updateId := "5122878", title := "lcu.msu" },
             file := { url := "https://example/lcu.msu", filename := "lcu.msu",
                       sha1 := "da39a3ee5e6b4b0d3255bfef95601890afd80709" } }] := by
    decide +kernel
  constructor
  · intro resolved found first member second memberSecond _
    rw [only, Except.ok.injEq] at found
    subst found
    rw [List.mem_singleton.mp member, List.mem_singleton.mp memberSecond]
  · intro resolved found first member second memberSecond
    rw [only, Except.ok.injEq] at found
    subst found
    rw [List.mem_singleton.mp member, List.mem_singleton.mp memberSecond]
    exact plainLayout.apart _
  · exact fun existing found => (there existing found).1
  · intro existing resolved found resolves same
    rw [only, Except.ok.injEq] at resolves
    subst resolves
    obtain ⟨file, isFile⟩ := List.length_eq_one_iff.mp (there existing found).2
    rw [isFile, List.map_singleton, List.map_singleton] at same ⊢
    rw [List.mem_singleton.mp ((same _).mp List.mem_cons_self)]

/-- Two proposals of the cumulative update, the second of which changes nothing. -/
theorem proposals_sound_twice :
    (∀ build resolved download (cache : Cache String) message,
      (fetch plainLayout sampleDigests build resolved download cache).2 = .error message →
        (fetch plainLayout sampleDigests build resolved download cache).1
            (plainLayout.dest (assetKey build resolved.file.filename)) =
          cache (plainLayout.dest (assetKey build resolved.file.filename))) ∧
    (∀ step ∈ (proposals plainLayout sampleDigests).steps emptyMachine [lcuProposal, lcuProposal],
      StepSound plainLayout sampleDigests step.1 step.2) ∧
    ∀ first ∈ (proposals plainLayout sampleDigests).steps emptyMachine [lcuProposal, lcuProposal],
      ∀ second ∈ (proposals plainLayout sampleDigests).steps emptyMachine [lcuProposal, lcuProposal],
        ∀ key, (run plainLayout sampleDigests first.2 first.1).2 = .ok key →
          (run plainLayout sampleDigests second.2 second.1).2 = .ok key →
          first.2.release.releaseId = second.2.release.releaseId := by
  refine proposals_sound (System.Run.ofLabels trivial ⟨trivial, trivial, trivial⟩) ?_
  intro step member
  rcases List.mem_cons.mp member with rfl | later
  · apply proper_lcuProposal
    intro existing found
    cases found
  · rw [List.mem_singleton.mp later]
    apply proper_lcuProposal
    intro existing found
    have written : ((run plainLayout sampleDigests lcuProposal emptyMachine).1.baselines
        (keyOf lcuProposal)).map (fun baseline => (baseline.msrcRelease, baseline.files.length)) =
        some ("2026-Sep", 1) := by
      decide +kernel
    change (run plainLayout sampleDigests lcuProposal emptyMachine).1.baselines
      (keyOf lcuProposal) = some existing at found
    rw [found, Option.map_some, Option.some.injEq, Prod.mk.injEq] at written
    exact written

/-- An entry for a sample's update. -/
def sampleFile (role : UpdateRole) (filename : String) (bytes : Bytes) : BaselineFile :=
  baselineFile sampleDigests 19044
    { role, fix := { kb := "5122878", fixedBuild := "10.0.19044.7725" }
      row := { updateId := "5122878", title := filename }
      file := { url := "https://example/" ++ filename, filename,
                sha1 := sampleDigests.sha1 bytes } }
    bytes

/-- Two updates of one file name. -/
def sameNameProposal : Proposal :=
  sampleProposal "2026-Sep" [(.lcu, "update.msu", []), (.dotnet, "update.msu", [97])]

/-- A machine on which two updates were proposed. -/
def proposedMachine : Machine String :=
  (run plainLayout sampleDigests
    (sampleProposal "2026-Sep" [(.lcu, "lcu.msu", []), (.dotnet, "net.msu", [97])]) emptyMachine).1

/-- The same updates in the other order. -/
def reorderedProposal : Proposal :=
  sampleProposal "2026-Sep" [(.dotnet, "net.msu", [97]), (.lcu, "lcu.msu", [])]

/-- Of two updates of one file name the baseline names a digest that the second one has
replaced. The same updates in the other order are refused. And two releases of one month
with the same files end with one baseline file. -/
theorem proposals_unsound :
    ¬StepSound plainLayout sampleDigests emptyMachine sameNameProposal ∧
    ¬StepSound plainLayout sampleDigests proposedMachine reorderedProposal ∧
    (run plainLayout sampleDigests lcuProposal emptyMachine).2 = .ok (19044, "19044-2026-09") ∧
    (run plainLayout sampleDigests (sampleProposal "2026-Sep-B" [(.lcu, "lcu.msu", [])])
      (run plainLayout sampleDigests lcuProposal emptyMachine).1).2 =
      .ok (19044, "19044-2026-09") := by
  refine ⟨fun sound => ?_, fun sound => ?_, by decide +kernel, by decide +kernel⟩
  · have written : ((run plainLayout sampleDigests sameNameProposal emptyMachine).1.baselines
        (keyOf sameNameProposal)).map Baseline.files =
        some [sampleFile .lcu "update.msu" [], sampleFile .dotnet "update.msu" [97]] := by
      decide +kernel
    have cached : (run plainLayout sampleDigests sameNameProposal emptyMachine).1.cache
        (assetKey 19044 "update.msu") = some [97] := by
      decide +kernel
    obtain ⟨baseline, there, files⟩ := Option.map_eq_some_iff.mp written
    obtain ⟨bytes, found, sha1, -⟩ := sound.written baseline rfl there
      (sampleFile .lcu "update.msu" []) (by rw [files]; exact List.mem_cons_self)
    obtain rfl : [97] = bytes := Option.some.inj (cached.symm.trans found)
    exact absurd sha1 (by decide +kernel)
  · have there : (proposedMachine.baselines (keyOf reorderedProposal)).map Baseline.files =
        some [sampleFile .lcu "lcu.msu" [], sampleFile .dotnet "net.msu" [97]] := by
      decide +kernel
    have proposed : ((propose plainLayout sampleDigests reorderedProposal
        proposedMachine.cache).2.toOption).map Baseline.files =
        some [sampleFile .dotnet "net.msu" [97], sampleFile .lcu "lcu.msu" []] := by
      decide +kernel
    obtain ⟨existing, existingThere, existingFiles⟩ := Option.map_eq_some_iff.mp there
    obtain ⟨baseline, isProposed, files⟩ := Option.map_eq_some_iff.mp proposed
    have same : SameFiles existing.files baseline.files := by
      intro file
      simp [existingFiles, files, or_comm]
    have result : (propose plainLayout sampleDigests reorderedProposal proposedMachine.cache).2 =
        .ok baseline := by
      cases outcome : (propose plainLayout sampleDigests reorderedProposal
          proposedMachine.cache).2 with
      | error message =>
        rw [outcome] at isProposed
        cases isProposed
      | ok found =>
        rw [outcome] at isProposed
        exact congrArg Except.ok (Option.some.inj isProposed)
    exact absurd (sound.again existing baseline existingThere result same).1 (by decide +kernel)

end Samples

end MastProvisioning.Fleet.OsBaselines
