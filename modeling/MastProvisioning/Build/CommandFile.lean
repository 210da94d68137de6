import Mathlib
import MastProvisioning.Build.Manifest
import MastProvisioning.Collections.Aligned

/-!
# The commands of a build

`New-CommandFile` takes the command of every module from its `module.json`, adds what the
parameters of the build say to some of them, and sorts what it has by order and description. A
verify command has the order after that of its module, and the proxy is applied once more near
the end of the list. `runsInOrder` says what execute finds in the list, whatever its targets.
-/

namespace MastProvisioning.Build

open MastProvisioning.Collections MastProvisioning.PowerShell

/-- What the build reads of a `module.json`. The casts make an empty text, 0 or `$false` of a key
that is not there. -/
structure ModuleManifest where
  name : String
  order : Int
  description : String
  command : String
  verify : String
  version : String
  always : Bool
  commandfiles : List String
  repofiles : List String

/-- The repository on the build host. -/
structure BuildTree where
  top : String
  /-- The directories under `server\providers` that have a `module.json`. -/
  manifests : List (String × ModuleManifest)
  /-- What a command file of a module resolves to. -/
  commandFile : String → String → Option String
  repoFile : String → Option String
  /-- The base names of the site profiles. -/
  sites : List String
  gitSha : Option String

/-- `-ProxyMode`. -/
inductive ProxyMode
  | weizmann
  | direct
deriving DecidableEq, Repr

/-- `-ImdiskMountType`. -/
inductive MountType
  | vm
  | file
deriving DecidableEq, Repr

/-- The parameters of a build that its commands depend on, and the digest of the index set that
`server\data\assets.json` declares. -/
structure BuildParams where
  proxyMode : ProxyMode
  imdiskMountType : MountType
  testMode : Bool
  site : String
  indexSetDigest : String
deriving DecidableEq, Repr

/-- How `Sort-Object` compares two descriptions. -/
structure Collation where
  le : String → String → Bool
  trans : ∀ first second third, le first second → le second third → le first third
  total : ∀ first second, le first second || le second first

def MountType.text : MountType → String
  | .vm => "vm"
  | .file => "file"

/-- `${proxyForceMode}`. -/
def ProxyMode.forceMode : ProxyMode → String
  | .weizmann => "use"
  | .direct => "direct"

/-- `${siteRpiNtp}`. -/
def siteRpiNtp : List (String × String) := [("ns", "10.23.1.222")]

/-- `Get-MastRequiredMemoryGB`. -/
def requiredMemoryGB : Nat := 64

def BuildTree.providersRoot (tree : BuildTree) : String := tree.top ++ "\\server\\providers"

section Operations

variable (fold : Char → Char) (collation : Collation) (tree : BuildTree) (params : BuildParams)

/-- `-eq`, `-contains` and the labels of a `switch` ignore case. -/
def isNamed (name label : String) : Bool := foldText fold name == foldText fold label

/-- `Read-ModuleManifest`. -/
def readModuleManifest (name : String) : Except String ModuleManifest :=
  match OrderedDict.get? (foldText fold) tree.manifests name with
  | some manifest => .ok manifest
  | none => .error ("Missing module.json for module '" ++ name ++ "' at " ++
      tree.providersRoot ++ "\\" ++ name ++ "\\module.json")

/-- `Get-ConfiguredSites`. -/
def configuredSites : Except String (List String) :=
  let sitesDir := tree.providersRoot ++ "\\config-bootstrap\\sites"
  let sites := (tree.sites.map foldCase).mergeSort collation.le
  if sites = [] then .error ("No site profiles (*.toml) found under " ++ sitesDir ++ ".")
  else .ok sites

/-- `-join ', '`. -/
def joinSites : List String → String
  | [] => ""
  | [site] => site
  | site :: rest => site ++ ", " ++ joinSites rest

/-- What the `switch` appends to the command of a module. -/
def commandTweak (name : String) : Except String String :=
  if isNamed fold name "proxy" then .ok (" -ForceMode " ++ params.proxyMode.forceMode)
  else if isNamed fold name "mast" then
    .ok (if params.proxyMode = .weizmann then "" else " -DirectHttp")
  else if isNamed fold name "imdisk" then
    .ok ((if params.imdiskMountType = .vm then ""
        else " -MountType " ++ params.imdiskMountType.text) ++
      " -MinMemoryGB " ++ toString requiredMemoryGB ++
      " -IndexSetDigest " ++ params.indexSetDigest)
  else if isNamed fold name "config-bootstrap" then
    if tree.sites.any fun site => isNamed fold site params.site then
      .ok (" -Site " ++ params.site)
    else
      match configuredSites collation tree with
      | .error message => .error message
      | .ok sites => .error ("-Site '" ++ params.site ++ "' has no profile at " ++
          tree.providersRoot ++ "\\config-bootstrap\\sites\\" ++ params.site ++
          ".toml. Available sites: " ++ joinSites sites)
  else if isNamed fold name "timesync" then
    .ok (match OrderedDict.get? (foldText fold) siteRpiNtp params.site with
      | some server => " -RpiNtp " ++ server
      | none => "")
  else if isNamed fold name "mast-validation" then
    .ok (if params.testMode then " -AllowMissingAvx" else "")
  else .ok ""

/-- What is appended to the verify command of a module. -/
def verifyTweak (name : String) : String :=
  (if params.testMode && isNamed fold name "astrometry" then " -AllowMissingAvx" else "") ++
    if params.testMode && isNamed fold name "usbpcap" then " -AllowPendingReboot" else ""

/-- The commands of a module. -/
def moduleCommands (name : String) : Except String (List Command) := do
  let manifest ← readModuleManifest fold tree name
  let added ← commandTweak fold collation tree params name
  let provide : Command := ⟨manifest.order, manifest.description, manifest.command ++ added, name⟩
  if manifest.verify = "" then pure [provide]
  else pure [provide, ⟨manifest.order + 1, "[verify] " ++ manifest.name,
    manifest.verify ++ verifyTweak fold params name, name ++ verifySuffix⟩]

/-- The description of the command that applies the proxy once more. -/
def finalizeDescription : String :=
  "Finalize networking: re-assert the Weizmann bcproxy HTTP proxy on every surface " ++
    "(machine env, WinINet, WinHTTP) so the unit ships proxy-ready regardless of the " ++
    "provisioning-time -ProxyMode. Idempotent in weizmann mode; flips direct->proxy in direct mode."

/-- The end-of-provisioning networking finalization. -/
def finalizeCommands (modules : List String) : Except String (List Command) :=
  if modules.any fun name => isNamed fold name "proxy" then do
    let manifest ← readModuleManifest fold tree "proxy"
    let finalize : Command :=
      ⟨9000, finalizeDescription, manifest.command ++ " -ForceMode use", "proxy"⟩
    if manifest.verify = "" then pure [finalize]
    else pure [finalize,
      ⟨9001, "[verify] proxy (post-finalize)", manifest.verify, "proxy" ++ verifySuffix⟩]
  else pure []

/-- `Sort-Object order, desc`. -/
def sortCommands (commands : List Command) : List Command :=
  commands.mergeSort fun command other => decide (command.order < other.order) ||
    (command.order == other.order && collation.le command.desc other.desc)

/-- `New-CommandFile`. -/
def newCommandFile (modules : List String) : Except String (List Command) := do
  let commands ← modules.mapM (moduleCommands fold collation tree params)
  let final ← finalizeCommands fold tree modules
  pure (sortCommands collation (commands.flatten ++ final))

end Operations

/-- A place in the list of commands. -/
inductive Slot
  | provide (name : String)
  | verify (name : String)
  | finalize
  | finalizeVerify
deriving DecidableEq, Repr

section Slots

variable (fold : Char → Char) (collation : Collation) (tree : BuildTree) (params : BuildParams)

/-- Whether the `module.json` of a module has a verify command. -/
def hasVerify (name : String) : Bool :=
  match readModuleManifest fold tree name with
  | .ok manifest => manifest.verify ≠ ""
  | .error _ => false

/-- The places of a module. -/
def moduleSlots (name : String) : List Slot :=
  if hasVerify fold tree name then [.provide name, .verify name] else [.provide name]

/-- The places of the finalization. -/
def finalizeSlots (modules : List String) : List Slot :=
  if modules.any fun name => isNamed fold name "proxy" then
    if hasVerify fold tree "proxy" then [.finalize, .finalizeVerify] else [.finalize]
  else []

/-- The places of a list of commands, before it is sorted. -/
def commandSlots (modules : List String) : List Slot :=
  modules.flatMap (moduleSlots fold tree) ++ finalizeSlots fold tree modules

/-- What is in a place. -/
inductive Fills : Slot → Command → Prop
  | provide {name : String} {manifest : ModuleManifest} {added : String}
      (read : readModuleManifest fold tree name = .ok manifest)
      (tweak : commandTweak fold collation tree params name = .ok added) :
      Fills (.provide name)
        ⟨manifest.order, manifest.description, manifest.command ++ added, name⟩
  | verify {name : String} {manifest : ModuleManifest}
      (read : readModuleManifest fold tree name = .ok manifest) :
      Fills (.verify name) ⟨manifest.order + 1, "[verify] " ++ manifest.name,
        manifest.verify ++ verifyTweak fold params name, name ++ verifySuffix⟩
  | finalize {manifest : ModuleManifest}
      (read : readModuleManifest fold tree "proxy" = .ok manifest) :
      Fills .finalize ⟨9000, finalizeDescription, manifest.command ++ " -ForceMode use", "proxy"⟩
  | finalizeVerify {manifest : ModuleManifest}
      (read : readModuleManifest fold tree "proxy" = .ok manifest) :
      Fills .finalizeVerify
        ⟨9001, "[verify] proxy (post-finalize)", manifest.verify, "proxy" ++ verifySuffix⟩

/-- What is in the `module.json` of a module, if there is one. -/
def manifestOf (name : String) : Option ModuleManifest :=
  (readModuleManifest fold tree name).toOption

/-- What a place is sorted by. -/
def slotKey : Slot → Int × String
  | .provide name => ((manifestOf fold tree name).map fun manifest =>
      (manifest.order, manifest.description)).getD (0, "")
  | .verify name => ((manifestOf fold tree name).map fun manifest =>
      (manifest.order + 1, "[verify] " ++ manifest.name)).getD (0, "")
  | .finalize => (9000, finalizeDescription)
  | .finalizeVerify => (9001, "[verify] proxy (post-finalize)")

/-- What the command in a place is labelled with. -/
def slotLabel : Slot → String
  | .provide name => name
  | .verify name => name ++ verifySuffix
  | .finalize => "proxy"
  | .finalizeVerify => "proxy" ++ verifySuffix

/-- The places in the order of their commands. -/
def sortedSlots (modules : List String) : List Slot :=
  (commandSlots fold tree modules).mergeSort fun slot other =>
    decide ((slotKey fold tree slot).1 < (slotKey fold tree other).1) ||
      ((slotKey fold tree slot).1 == (slotKey fold tree other).1 &&
        collation.le (slotKey fold tree slot).2 (slotKey fold tree other).2)

end Slots

section Filled

variable {fold : Char → Char} {collation : Collation} {tree : BuildTree} {params : BuildParams}
  {modules : List String} {commands : List Command} {name : String} {manifest : ModuleManifest}

theorem hasVerify_of_read (read : readModuleManifest fold tree name = .ok manifest) :
    hasVerify fold tree name = decide (manifest.verify ≠ "") := by
  rw [hasVerify, read]

theorem moduleCommands_fills (made : moduleCommands fold collation tree params name =
      .ok commands) :
    List.Forall₂ (Fills fold collation tree params) (moduleSlots fold tree name) commands := by
  obtain ⟨manifest, read, made⟩ := bind_eq_ok.mp made
  obtain ⟨added, tweak, made⟩ := bind_eq_ok.mp made
  have provides := Fills.provide read tweak
  rw [moduleSlots, hasVerify_of_read read]
  by_cases verify : manifest.verify = ""
  · have isMade := Except.ok.inj ((if_pos verify).symm.trans made)
    subst isMade
    simp only [verify, ne_eq, not_true_eq_false, decide_false, Bool.false_eq_true, ite_false]
    exact .cons provides .nil
  · have isMade := Except.ok.inj ((if_neg verify).symm.trans made)
    subst isMade
    simp only [verify, ne_eq, not_false_eq_true, decide_true, ite_true]
    exact .cons provides (.cons (.verify read) .nil)

theorem finalizeCommands_fills (made : finalizeCommands fold tree modules = .ok commands) :
    List.Forall₂ (Fills fold collation tree params) (finalizeSlots fold tree modules)
      commands := by
  unfold finalizeCommands at made
  unfold finalizeSlots
  split at made
  · rename_i hasProxy
    rw [if_pos hasProxy]
    obtain ⟨manifest, read, made⟩ := bind_eq_ok.mp made
    have finalizes := @Fills.finalize fold collation tree params manifest read
    rw [hasVerify_of_read read]
    by_cases verify : manifest.verify = ""
    · have isMade := Except.ok.inj ((if_pos verify).symm.trans made)
      subst isMade
      simp only [verify, ne_eq, not_true_eq_false, decide_false, Bool.false_eq_true, ite_false]
      exact .cons finalizes .nil
    · have isMade := Except.ok.inj ((if_neg verify).symm.trans made)
      subst isMade
      simp only [verify, ne_eq, not_false_eq_true, decide_true, ite_true]
      exact .cons finalizes (.cons (.finalizeVerify read) .nil)
  · rename_i noProxy
    cases made
    rw [if_neg noProxy]
    exact .nil

/-- The list is what the places hold, sorted. -/
theorem newCommandFile_fills (made : newCommandFile fold collation tree params modules =
      .ok commands) :
    ∃ filled, List.Forall₂ (Fills fold collation tree params) (commandSlots fold tree modules)
        filled ∧ commands = sortCommands collation filled := by
  obtain ⟨lists, each, made⟩ := bind_eq_ok.mp made
  obtain ⟨final, last, made⟩ := bind_eq_ok.mp made
  refine ⟨lists.flatten ++ final, ?_, (Except.ok.inj made).symm⟩
  apply List.rel_append _ (finalizeCommands_fills last)
  rw [List.flatMap_def]
  apply List.rel_flatten
  rw [List.forall₂_map_left_iff]
  exact (mapM_eq_ok.mp each).imp fun _ _ => moduleCommands_fills

theorem manifestOf_read (read : readModuleManifest fold tree name = .ok manifest) :
    manifestOf fold tree name = some manifest := by
  rw [manifestOf, read]
  rfl

theorem key_of_fills {slot : Slot} {command : Command}
    (fills : Fills fold collation tree params slot command) :
    slotKey fold tree slot = (command.order, command.desc) := by
  cases fills with
  | provide read => simp [slotKey, manifestOf_read read]
  | verify read => simp [slotKey, manifestOf_read read]
  | finalize => rfl
  | finalizeVerify => rfl

theorem label_of_fills {slot : Slot} {command : Command}
    (fills : Fills fold collation tree params slot command) : slotLabel slot = command.module := by
  cases fills <;> rfl

/-- The parameters of a build have no part in the order of its commands. -/
theorem newCommandFile_sorted (made : newCommandFile fold collation tree params modules =
      .ok commands) :
    List.Forall₂ (Fills fold collation tree params) (sortedSlots fold collation tree modules)
      commands := by
  obtain ⟨filled, fills, rfl⟩ := newCommandFile_fills made
  apply aligned_mergeSort fills
  intro slot command slot' command' here there
  rw [key_of_fills here, key_of_fills there]

/-- A command of the list is in one of the places, and every place has one. -/
theorem mem_newCommandFile (made : newCommandFile fold collation tree params modules =
      .ok commands) :
    (∀ command ∈ commands, ∃ slot ∈ commandSlots fold tree modules,
      Fills fold collation tree params slot command) ∧
    (∀ slot ∈ commandSlots fold tree modules, ∃ command ∈ commands,
      Fills fold collation tree params slot command) := by
  obtain ⟨filled, fills, rfl⟩ := newCommandFile_fills made
  obtain ⟨placed, found⟩ := aligned_mem fills
  constructor
  · intro command member
    exact found command (List.mem_mergeSort.mp member)
  · intro slot member
    obtain ⟨command, isFilled, isCommand⟩ := placed slot member
    exact ⟨command, List.mem_mergeSort.mpr isFilled, isCommand⟩

theorem sorted_newCommandFile (made : newCommandFile fold collation tree params modules =
      .ok commands) :
    commands.Pairwise fun command other => command.order ≤ other.order := by
  obtain ⟨filled, -, rfl⟩ := newCommandFile_fills made
  refine (List.pairwise_mergeSort ?_ ?_ filled).imp ?_
  · intro first second third before after
    simp only [Bool.or_eq_true, Bool.and_eq_true, decide_eq_true_eq, beq_iff_eq] at *
    rcases before with before | ⟨same, before⟩ <;> rcases after with after | ⟨alike, after⟩
    · exact .inl (by omega)
    · exact .inl (by omega)
    · exact .inl (by omega)
    · exact .inr ⟨by omega, collation.trans _ _ _ before after⟩
  · intro first second
    have total := collation.total first.desc second.desc
    simp only [Bool.or_eq_true, Bool.and_eq_true, decide_eq_true_eq, beq_iff_eq] at *
    rcases lt_trichotomy first.order second.order with before | same | after
    · exact .inl (.inl before)
    · rcases total with before | after
      · exact .inl (.inr ⟨same, before⟩)
      · exact .inr (.inr ⟨same.symm, after⟩)
    · exact .inr (.inl after)
  · intro first second before
    simp only [Bool.or_eq_true, Bool.and_eq_true, decide_eq_true_eq, beq_iff_eq] at before
    omega

theorem mem_commandSlots {slot : Slot} : slot ∈ commandSlots fold tree modules ↔
    match slot with
    | .provide name => name ∈ modules
    | .verify name => name ∈ modules ∧ hasVerify fold tree name = true
    | .finalize => ∃ name ∈ modules, isNamed fold name "proxy" = true
    | .finalizeVerify => (∃ name ∈ modules, isNamed fold name "proxy" = true) ∧
        hasVerify fold tree "proxy" = true := by
  have places (name : String) : slot ∈ moduleSlots fold tree name ↔ slot = .provide name ∨
      (slot = .verify name ∧ hasVerify fold tree name = true) := by
    unfold moduleSlots
    split <;> simp_all
  have final : slot ∈ finalizeSlots fold tree modules ↔
      (∃ name ∈ modules, isNamed fold name "proxy" = true) ∧
        (slot = .finalize ∨ (slot = .finalizeVerify ∧ hasVerify fold tree "proxy" = true)) := by
    unfold finalizeSlots
    rw [← List.any_eq_true]
    split
    · split <;> simp_all
    · simp_all
  rw [commandSlots, List.mem_append, List.mem_flatMap, final]
  cases slot <;> simp [places]

end Filled

end MastProvisioning.Build
