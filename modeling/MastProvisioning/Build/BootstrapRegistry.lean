import MastProvisioning.Collections.OrderedDict
import MastProvisioning.Collections.Patterns
import MastProvisioning.PowerShell.SettingsFile
import MastProvisioning.PowerShell.Text
import Mathlib

/-!
# The registry of bootstrap elements against the script

The build holds `bootstrap-elements.json` and `bootstrap.ps1` to each other before it
releases either. It reads the script as a text: the version, the map of functions and the
definitions are found by regular expressions, not by PowerShell.

An entry the expression has no eye for is an entry no check sees. What the accepted
registry then says of the script that runs is settled here: it is true exactly when the
expressions read the script as PowerShell does.
-/

namespace MastProvisioning.Build.BootstrapRegistry

open MastProvisioning.Collections
open MastProvisioning.Collections.Patterns (Piece matchAt firstMatch allMatches)
open MastProvisioning.PowerShell (foldCase)
open MastProvisioning.PowerShell.SettingsFile (Text isSpace laterLines)

section Registry

/-- One entry of `elements`; a field that is absent or null is none. -/
structure Element where
  id : Option String
  description : Option String
  since : Option Int
  reassert : Option String
  provider : Option String
deriving DecidableEq, Repr

/-- `bootstrap-elements.json`. -/
structure Registry where
  elements : Option (List Element)
  currentVersion : Option Int
deriving DecidableEq, Repr

/-- `@($Registry.elements)`: what is not there counts as one element without fields. -/
def Registry.elementList (registry : Registry) : List Element :=
  registry.elements.getD [⟨none, none, none, none, none⟩]

/-- `[string]$e.id`. -/
def Element.name (element : Element) : String :=
  element.id.getD ""

/-- `[string]$e.reassert`. -/
def Element.kind (element : Element) : String :=
  element.reassert.getD ""

/-- `[string]$e.provider`. -/
def Element.named (element : Element) : String :=
  element.provider.getD ""

/-- `[int]$e.since`. -/
def Element.sinceNumber (element : Element) : Int :=
  element.since.getD 0

/-- `-eq` on texts. -/
abbrev Same (first second : String) : Prop :=
  foldCase first = foldCase second

/-- `-contains`. -/
def listed (names : List String) (name : String) : Bool :=
  names.any fun known => Same known name

/-- `IsNullOrWhiteSpace`. -/
def isNullOrWhiteSpace (text : String) : Bool :=
  text.toList.all isSpace

/-- `$script:MastReassertKinds`. -/
def mastReassertKinds : List String :=
  ["routine", "provider", "on-demand", "console"]

/-- What is wrong with the provider an element names. -/
def providerProblems (knownProviders : List String) (id kind named : String) : List String :=
  if Same kind "provider" then
    if isNullOrWhiteSpace named then
      ["element '" ++ id ++ "' is reassert='provider' but names no 'provider'"]
    else if !knownProviders.isEmpty && !listed knownProviders named then
      ["element '" ++ id ++ "' names provider '" ++ named ++
        "', which does not exist under server\\providers"]
    else []
  else if !isNullOrWhiteSpace named then
    ["element '" ++ id ++ "' names a provider but is reassert='" ++ kind ++ "', not 'provider'"]
  else []

/-- What is wrong with the kind of an element. -/
def kindProblems (knownProviders : List String) (element : Element) : List String :=
  match element.reassert with
  | none =>
    ["element '" ++ element.name ++ "' does not declare 'reassert' (one of: " ++
      ", ".intercalate mastReassertKinds ++ ")"]
  | some kind =>
    if !listed mastReassertKinds kind then
      ["element '" ++ element.name ++ "' has reassert='" ++ kind ++ "'; must be one of: " ++
        ", ".intercalate mastReassertKinds]
    else providerProblems knownProviders element.name kind element.named

/-- What is wrong with an element that has an id. -/
def elementProblems (knownProviders seen : List String) (element : Element) : List String :=
  (if listed seen element.name then ["duplicate element id '" ++ element.name ++ "'"] else []) ++
  (if isNullOrWhiteSpace (element.description.getD "") then
    ["element '" ++ element.name ++ "' has no description"] else []) ++
  (if element.sinceNumber < 1 then
    ["element '" ++ element.name ++ "' has since=" ++ toString element.sinceNumber ++
      "; must be >= 1"] else []) ++
  kindProblems knownProviders element

/-- The loop over the elements, with the ids already seen. -/
def elementsProblems (knownProviders : List String) : List String → List Element → List String
  | _, [] => []
  | seen, element :: rest =>
    if isNullOrWhiteSpace element.name then
      "an element has no id" :: elementsProblems knownProviders seen rest
    else
      elementProblems knownProviders seen element ++
        elementsProblems knownProviders (seen ++ [element.name]) rest

/-- `Measure-Object -Maximum` over the versions of the elements. -/
def maxSince (elements : List Element) : Int :=
  ((elements.map Element.sinceNumber).max?).getD 0

/-- What is wrong with the version the registry claims. -/
def versionProblems (registry : Registry) (embeddedVersion : Int) : List String :=
  let current := registry.currentVersion.getD (-1)
  (if current ≠ maxSince registry.elementList then
    ["current_version is " ++ toString current ++ " but the newest element is since=" ++
      toString (maxSince registry.elementList)] else []) ++
  (if 0 ≤ embeddedVersion ∧ current ≠ embeddedVersion then
    ["current_version is " ++ toString current ++
      " but bootstrap.ps1 $script:BootstrapVersion is " ++ toString embeddedVersion ++
      "; bump them together"] else [])

/-- `Test-MastBootstrapElementRegistry`. -/
def testMastBootstrapElementRegistry (registry : Registry) (knownProviders : List String)
    (embeddedVersion : Int) : List String :=
  if registry.elementList.isEmpty then ["registry declares no elements"]
  else
    elementsProblems knownProviders [] registry.elementList ++
      versionProblems registry embeddedVersion

/-- A directory under `server\providers`. -/
structure ProviderDirectory where
  name : String
  hasModuleJson : Bool
deriving DecidableEq, Repr

/-- `Get-MastProviderNames`; the directories are none when their root is missing. -/
def getMastProviderNames (directories : Option (List ProviderDirectory)) : List String :=
  ((directories.getD []).filter ProviderDirectory.hasModuleJson).map ProviderDirectory.name

end Registry

section Script

/-- The classes `\w` and `\d` of a regular expression, which take in characters of every
script and, of ASCII, the usual ones. White space is in neither. -/
structure CharClasses where
  isWord : Char → Bool
  isDigit : Char → Bool
  word_visible : ∀ character : Char, isWord character = true → isSpace character = false
  word_ascii : ∀ character : Char, character.toNat < 128 →
    isWord character = (character.isAlphanum || character == '_')
  digit_ascii : ∀ character : Char, character.toNat < 128 → isDigit character = character.isDigit

/-- What an entry of the map says of an element. -/
structure Action where
  kind : String
  function : String
deriving DecidableEq, Repr

variable (classes : CharClasses)

/-- `[\w-]`. -/
def CharClasses.isName (character : Char) : Bool :=
  classes.isWord character || character == '-'

/-- `\$script:BootstrapVersion\s*=\s*(\d+)`. -/
def versionPattern : List (Piece Char) :=
  [.word "$script:BootstrapVersion".toList, .run isSpace, .word ['='], .run isSpace,
    .capture classes.isDigit]

/-- The digits first assigned to the version. -/
def versionDigits (script : Text) : Option Text :=
  (firstMatch id (versionPattern classes) script).bind fun found => found.1.head?

/-- `[int]`, of digits. -/
def toInt32 (digits : Text) : Option Int :=
  if digits.all Char.isDigit then
    let value := digits.foldl (fun value digit => 10 * value + (digit.toNat - '0'.toNat)) 0
    if value < 2 ^ 31 then some value else none
  else none

/-- `Get-MastBootstrapEmbeddedVersion`. -/
def getMastBootstrapEmbeddedVersion (scriptPath : String) (script : Text) : Except String Int :=
  match versionDigits classes script with
  | none =>
    .error ("Cannot find a '$script:BootstrapVersion = <n>' assignment in " ++ scriptPath ++ ".")
  | some digits =>
    match toInt32 digits with
    | none => .error ("Cannot convert value \"" ++ String.ofList digits ++ "\" to type \"System.Int32\".")
    | some value => .ok value

/-- `\$script:MastBootstrapElementActions\s*=\s*\[ordered\]@\{`. -/
def headPattern : List (Piece Char) :=
  [.word "$script:MastBootstrapElementActions".toList, .run isSpace, .word ['='], .run isSpace,
    .word "[ordered]@\x7b".toList]

/-- `(.*?)^\}`: up to the first line that begins with a brace. -/
def untilClosing : Text → Option Text
  | [] | [_] => none
  | first :: second :: rest =>
    if first = '\n' ∧ second = '\x7d' then some ['\n']
    else (untilClosing (second :: rest)).map (first :: ·)

/-- The inside of the map. -/
def mapBlock (script : Text) : Option Text :=
  (firstMatch id headPattern script).bind fun found => untilClosing found.2

/-- `'([\w-]+)'\s*=\s*@\{\s*Kind\s*=\s*'([\w-]+)'\s*;\s*Function\s*=\s*'([\w-]+)'\s*\}`. -/
def entryPattern : List (Piece Char) :=
  let name := [Piece.word ['\''], .capture classes.isName, .word ['\'']]
  let sign := [Piece.run isSpace, .word ['='], .run isSpace]
  name ++ sign ++ [.word "@\x7b".toList, .run isSpace, .word "Kind".toList] ++ sign ++ name ++
    [.run isSpace, .word [';'], .run isSpace, .word "Function".toList] ++ sign ++ name ++
    [.run isSpace, .word ['\x7d']]

/-- The entry of a match. -/
def entryOf : List Text → Option (String × Action)
  | [id, kind, function] =>
    some (String.ofList id, ⟨String.ofList kind, String.ofList function⟩)
  | _ => none

/-- The entries that stand in a text in the spelling of the pattern. -/
def spelledEntries (block : Text) : List (String × Action) :=
  (allMatches id (entryPattern classes) block).filterMap entryOf

/-- `Get-MastBootstrapDispatchMap`. -/
def getMastBootstrapDispatchMap (scriptPath : String) (script : Text) :
    Except String (List (String × Action)) :=
  match mapBlock script with
  | none =>
    .error ("Cannot find a '$script:MastBootstrapElementActions = [ordered]@\x7b...\x7d' map in " ++
      scriptPath ++ ".")
  | some block => .ok (OrderedDict.setAll foldCase [] (spelledEntries classes block))

/-- `function\s+name\s*\{`. -/
def functionPattern (name : String) : List (Piece Char) :=
  [.word "function".toList, .capture isSpace, .word name.toList, .run isSpace, .word ['\x7b']]

/-- `-match '(?m)^function\s+name\s*\{'`. -/
def definesFunction (script : Text) (name : String) : Bool :=
  (script :: laterLines script).any fun line =>
    (matchAt Char.toLower (functionPattern name) line).isSome

end Script

section Coverage

/-- The elements a re-assert run may call. -/
def isReassertable (element : Element) : Bool :=
  Same element.kind "routine" || Same element.kind "on-demand"

/-- `$reassertable`. -/
def reassertable (elements : List Element) : List (String × String) :=
  OrderedDict.setAll foldCase []
    ((elements.filter isReassertable).map fun element => (element.name, element.kind))

/-- An element the script has no entry for. -/
def dispatchProblems (dispatchMap : List (String × Action)) (entry : String × String) :
    List String :=
  if (OrderedDict.find? foldCase dispatchMap entry.1).isSome then []
  else
    ["element '" ++ entry.1 ++ "' is reassert='" ++ entry.2 ++
      "' but bootstrap.ps1 does not dispatch it; a re-assert run could not call it"]

/-- What is wrong with the classification of an entry. -/
def classProblems (elements : List Element) (id : String) (action : Action) : List String :=
  match OrderedDict.get? foldCase (reassertable elements) id with
  | none =>
    match elements.find? fun element => Same element.name id with
    | none => ["bootstrap.ps1 dispatches '" ++ id ++ "', which is not an element in the registry"]
    | some known =>
      ["bootstrap.ps1 dispatches '" ++ id ++ "', but the registry marks it reassert='" ++
        known.kind ++ "'; only routine and on-demand elements may be dispatchable"]
  | some kind =>
    if Same action.kind kind then []
    else
      ["element '" ++ id ++ "' is reassert='" ++ kind ++ "' in the registry but Kind='" ++
        action.kind ++ "' in bootstrap.ps1"]

/-- What is wrong with the function of an entry. -/
def functionProblems (script : Text) (id : String) (action : Action) : List String :=
  if script.isEmpty || definesFunction script action.function then []
  else
    ["element '" ++ id ++ "' maps to function '" ++ action.function ++
      "', which is not defined in bootstrap.ps1"]

/-- `Test-MastBootstrapDispatchCoverage`. -/
def testMastBootstrapDispatchCoverage (elements : List Element)
    (dispatchMap : List (String × Action)) (script : Text) : List String :=
  (reassertable elements).flatMap (dispatchProblems dispatchMap) ++
    dispatchMap.flatMap fun entry =>
      classProblems elements entry.1 entry.2 ++ functionProblems script entry.1 entry.2

/-- What a build finds: the two files and the providers. -/
structure Release where
  registryPath : String
  scriptPath : String
  registry : Registry
  script : Text
  providerDirectories : Option (List ProviderDirectory)

/-- `Assert-MastBootstrapElementRegistry`. -/
def assertMastBootstrapElementRegistry (classes : CharClasses) (release : Release) :
    Except String Unit := do
  let embedded ← getMastBootstrapEmbeddedVersion classes release.scriptPath release.script
  let problems := testMastBootstrapElementRegistry release.registry
    (getMastProviderNames release.providerDirectories) embedded
  if problems ≠ [] then
    throw (release.registryPath ++ " is invalid: " ++ "; ".intercalate problems)
  let dispatch ← getMastBootstrapDispatchMap classes release.scriptPath release.script
  let coverage := testMastBootstrapDispatchCoverage release.registry.elementList dispatch
    release.script
  if coverage ≠ [] then
    throw (release.registryPath ++ " and " ++ release.scriptPath ++ " disagree: " ++
      "; ".intercalate coverage)

/-- The build goes on. -/
def Accepts (classes : CharClasses) (release : Release) : Prop :=
  assertMastBootstrapElementRegistry classes release = .ok ()

end Coverage

section RegistryChecks

/-- An element the checks of its own fields find nothing wrong with. -/
structure WellFormed (element : Element) : Prop where
  named : isNullOrWhiteSpace element.name = false
  described : isNullOrWhiteSpace (element.description.getD "") = false
  since : 1 ≤ element.sinceNumber
  declared : element.reassert = some element.kind
  known : listed mastReassertKinds element.kind = true
  provider : Same element.kind "provider" ↔ isNullOrWhiteSpace element.named = false

/-- The provider an element names is among those known, if any are. -/
def ProviderKnown (knownProviders : List String) (element : Element) : Prop :=
  Same element.kind "provider" → knownProviders = [] ∨ listed knownProviders element.named = true

theorem listed_iff {names : List String} {name : String} :
    listed names name = true ↔ ∃ known ∈ names, Same known name := by
  simp [listed]

theorem providerProblems_eq_nil_iff {knownProviders : List String} {id kind named : String} :
    providerProblems knownProviders id kind named = [] ↔
      (Same kind "provider" ↔ isNullOrWhiteSpace named = false) ∧
      (Same kind "provider" → knownProviders = [] ∨ listed knownProviders named = true) := by
  unfold providerProblems
  by_cases isProvider : Same kind "provider"
  · rw [if_pos isProvider, eq_true isProvider]
    cases isNullOrWhiteSpace named
    · cases listed knownProviders named <;> cases knownProviders <;> simp
    · simp
  · rw [if_neg isProvider, eq_false isProvider]
    cases isNullOrWhiteSpace named <;> simp

theorem kindProblems_eq_nil_iff {knownProviders : List String} {element : Element} :
    kindProblems knownProviders element = [] ↔
      element.reassert = some element.kind ∧ listed mastReassertKinds element.kind = true ∧
      (Same element.kind "provider" ↔ isNullOrWhiteSpace element.named = false) ∧
      ProviderKnown knownProviders element := by
  unfold kindProblems
  cases declared : element.reassert with
  | none => simp
  | some kind =>
    have kindIs : element.kind = kind := by simp [Element.kind, declared]
    cases known : listed mastReassertKinds kind
    · simp [kindIs, known]
    · simp [kindIs, known, providerProblems_eq_nil_iff, ProviderKnown]

theorem elementProblems_eq_nil_iff {knownProviders seen : List String} {element : Element}
    (named : isNullOrWhiteSpace element.name = false) :
    elementProblems knownProviders seen element = [] ↔
      listed seen element.name = false ∧ WellFormed element ∧
        ProviderKnown knownProviders element := by
  simp only [elementProblems, List.append_eq_nil_iff, kindProblems_eq_nil_iff]
  constructor
  · rintro ⟨⟨⟨unseen, described⟩, since⟩, declared, known, provider, providerKnown⟩
    have isNew : listed seen element.name = false := by simpa using unseen
    have isDescribed : isNullOrWhiteSpace (element.description.getD "") = false := by
      simpa using described
    have isSince : 1 ≤ element.sinceNumber := by simpa using since
    exact ⟨isNew, ⟨named, isDescribed, isSince, declared, known, provider⟩, providerKnown⟩
  · rintro ⟨isNew, formed, providerKnown⟩
    have since : ¬element.sinceNumber < 1 := by
      have atLeast := formed.since
      omega
    simp only [isNew, formed.described, since]
    exact ⟨⟨⟨rfl, rfl⟩, rfl⟩, formed.declared, formed.known, formed.provider, providerKnown⟩

/-- The loop finds nothing exactly when it finds nothing wrong with any element and no id
twice, among the elements or those seen before. -/
theorem elementsProblems_eq_nil_iff {knownProviders seen : List String} {elements : List Element} :
    elementsProblems knownProviders seen elements = [] ↔
      (∀ element ∈ elements, WellFormed element ∧ ProviderKnown knownProviders element) ∧
      (elements.map fun element => foldCase element.name).Nodup ∧
      ∀ element ∈ elements, listed seen element.name = false := by
  induction elements generalizing seen with
  | nil => simp [elementsProblems]
  | cons element rest ih =>
    cases named : isNullOrWhiteSpace element.name
    · rw [elementsProblems, if_neg (by simp [named]), List.append_eq_nil_iff,
        elementProblems_eq_nil_iff named, ih, List.map_cons, List.nodup_cons]
      have unseen : (∀ other ∈ rest, listed (seen ++ [element.name]) other.name = false) ↔
          (∀ other ∈ rest, listed seen other.name = false) ∧
            foldCase element.name ∉ rest.map fun other => foldCase other.name := by
        simp only [listed, List.any_append, List.any_cons, List.any_nil, Bool.or_false,
          Bool.or_eq_false_iff, decide_eq_false_iff_not, List.mem_map, not_exists, not_and]
        constructor
        · intro each
          exact ⟨fun other member => (each other member).1,
            fun other member same => (each other member).2 same.symm⟩
        · rintro ⟨before, here⟩ other member
          exact ⟨before other member, fun same => here other member same.symm⟩
      rw [unseen, List.forall_mem_cons, List.forall_mem_cons]
      tauto
    · rw [elementsProblems, if_pos named]
      constructor
      · intro empty
        cases empty
      · rintro ⟨each, -, -⟩
        have notBlank := (each element List.mem_cons_self).1.named
        rw [named] at notBlank
        cases notBlank

theorem versionProblems_eq_nil_iff {registry : Registry} {embedded : Int} :
    versionProblems registry embedded = [] ↔
      registry.currentVersion.getD (-1) = maxSince registry.elementList ∧
      (0 ≤ embedded → registry.currentVersion.getD (-1) = embedded) := by
  simp [versionProblems, List.append_eq_nil_iff]

/-- A registry is accepted exactly when it has elements, each of them is in order, no id is
there twice, and the version it claims is the newest of them and the script's. -/
theorem testRegistry_eq_nil_iff {registry : Registry} {knownProviders : List String}
    {embedded : Int} :
    testMastBootstrapElementRegistry registry knownProviders embedded = [] ↔
      registry.elementList ≠ [] ∧
      (∀ element ∈ registry.elementList,
        WellFormed element ∧ ProviderKnown knownProviders element) ∧
      (registry.elementList.map fun element => foldCase element.name).Nodup ∧
      registry.currentVersion.getD (-1) = maxSince registry.elementList ∧
      (0 ≤ embedded → registry.currentVersion.getD (-1) = embedded) := by
  unfold testMastBootstrapElementRegistry
  cases elements : registry.elementList with
  | nil => simp
  | cons element rest =>
    rw [if_neg (by simp), List.append_eq_nil_iff, elementsProblems_eq_nil_iff,
      versionProblems_eq_nil_iff, elements]
    simp [listed, and_assoc]

/-- The greatest version of a registry that has elements. -/
theorem isGreatest_maxSince {elements : List Element} (nonempty : elements ≠ []) :
    IsGreatest {since | ∃ element ∈ elements, element.sinceNumber = since} (maxSince elements) := by
  have some : ∃ greatest, (elements.map Element.sinceNumber).max? = some greatest := by
    cases greatest : (elements.map Element.sinceNumber).max? with
    | none => simp [nonempty] at greatest
    | some value => exact ⟨value, rfl⟩
  obtain ⟨greatest, isMax⟩ := some
  have value : maxSince elements = greatest := by rw [maxSince, isMax, Option.getD_some]
  rw [value]
  obtain ⟨member, bound⟩ := List.max?_eq_some_iff.mp isMax
  constructor
  · simpa using member
  · rintro since ⟨element, inElements, rfl⟩
    exact bound _ (List.mem_map_of_mem inElements)

end RegistryChecks

section CoverageChecks

/-- A table of the elements that may be called, when no id is there twice. -/
theorem reassertable_eq {elements : List Element}
    (unique : (elements.map fun element => foldCase element.name).Nodup) :
    OrderedDict.Distinct foldCase (reassertable elements) ∧
      reassertable elements =
        (elements.filter isReassertable).map fun element => (element.name, element.kind) := by
  have distinct : OrderedDict.Distinct foldCase
      ((elements.filter isReassertable).map fun element => (element.name, element.kind)) := by
    rw [OrderedDict.Distinct, List.map_map]
    exact (List.filter_sublist.map _).nodup unique
  have table : reassertable elements =
      (elements.filter isReassertable).map fun element => (element.name, element.kind) :=
    OrderedDict.setAll_of_distinct (by simpa using distinct)
  exact ⟨table ▸ distinct, table⟩

theorem dispatchProblems_eq_nil_iff {dispatchMap : List (String × Action)} {entry : String × String} :
    dispatchProblems dispatchMap entry = [] ↔
      ∃ known ∈ dispatchMap, Same known.1 entry.1 := by
  unfold dispatchProblems
  cases found : OrderedDict.find? foldCase dispatchMap entry.1 with
  | none =>
    have absent := OrderedDict.find?_eq_none.mp found
    simpa using fun id action member => absent (id, action) member
  | some known =>
    have present := OrderedDict.mem_of_find? found
    simp only [Option.isSome_some, if_true, true_iff]
    exact ⟨known, present⟩

theorem classProblems_eq_nil_iff {elements : List Element}
    (unique : (elements.map fun element => foldCase element.name).Nodup) {id : String}
    {action : Action} :
    classProblems elements id action = [] ↔
      ∃ element ∈ elements, isReassertable element = true ∧ Same element.name id ∧
        Same element.kind action.kind := by
  obtain ⟨distinct, table⟩ := reassertable_eq unique
  unfold classProblems OrderedDict.get?
  cases found : OrderedDict.find? foldCase (reassertable elements) id with
  | none =>
    have absent := OrderedDict.find?_eq_none.mp found
    have left : (match elements.find? fun element => Same element.name id with
        | none => ["bootstrap.ps1 dispatches '" ++ id ++ "', which is not an element in the registry"]
        | some known =>
          ["bootstrap.ps1 dispatches '" ++ id ++ "', but the registry marks it reassert='" ++
            known.kind ++ "'; only routine and on-demand elements may be dispatchable"]) ≠ [] := by
      split <;> exact List.cons_ne_nil _ _
    simp only [Option.map_none]
    constructor
    · intro empty
      exact absurd empty left
    · rintro ⟨element, member, callable, sameId, -⟩
      have inTable : (element.name, element.kind) ∈ reassertable elements := by
        rw [table]
        exact List.mem_map_of_mem (List.mem_filter.mpr ⟨member, callable⟩)
      exact absurd sameId (absent _ inTable)
  | some entry =>
    obtain ⟨inTable, sameId⟩ := OrderedDict.mem_of_find? found
    rw [table] at inTable
    obtain ⟨element, filtered, rfl⟩ := List.mem_map.mp inTable
    obtain ⟨member, callable⟩ := List.mem_filter.mp filtered
    simp only [Option.map_some]
    constructor
    · intro empty
      have sameKind : Same action.kind element.kind := by
        by_contra differs
        rw [if_neg differs] at empty
        cases empty
      exact ⟨element, member, callable, sameId, sameKind.symm⟩
    · rintro ⟨other, otherMember, -, otherId, otherKind⟩
      have same : other = element :=
        List.inj_on_of_nodup_map unique otherMember member (otherId.trans sameId.symm)
      subst same
      exact if_pos otherKind.symm

/-- The map and the registry agree exactly when what may be called and what is dispatched
are the same, kinds included, and every function is defined. -/
theorem testCoverage_eq_nil_iff {elements : List Element}
    (unique : (elements.map fun element => foldCase element.name).Nodup)
    {dispatchMap : List (String × Action)} {script : Text} :
    testMastBootstrapDispatchCoverage elements dispatchMap script = [] ↔
      (∀ element ∈ elements, isReassertable element = true →
        ∃ entry ∈ dispatchMap, Same entry.1 element.name) ∧
      ∀ entry ∈ dispatchMap,
        (∃ element ∈ elements, isReassertable element = true ∧ Same element.name entry.1 ∧
          Same element.kind entry.2.kind) ∧
        (script = [] ∨ definesFunction script entry.2.function = true) := by
  have functions (entry : String × Action) : functionProblems script entry.1 entry.2 = [] ↔
      script = [] ∨ definesFunction script entry.2.function = true := by
    unfold functionProblems
    cases script <;> simp
  rw [testMastBootstrapDispatchCoverage, List.append_eq_nil_iff, List.flatMap_eq_nil_iff,
    List.flatMap_eq_nil_iff, (reassertable_eq unique).2]
  simp only [List.append_eq_nil_iff, functions, classProblems_eq_nil_iff unique,
    dispatchProblems_eq_nil_iff, List.forall_mem_map, List.mem_filter, and_imp]

/-- The build goes on exactly when nothing is missing and no check finds anything. -/
theorem accepts_iff {classes : CharClasses} {release : Release} :
    Accepts classes release ↔
      ∃ embedded dispatchMap,
        getMastBootstrapEmbeddedVersion classes release.scriptPath release.script = .ok embedded ∧
        testMastBootstrapElementRegistry release.registry
          (getMastProviderNames release.providerDirectories) embedded = [] ∧
        getMastBootstrapDispatchMap classes release.scriptPath release.script = .ok dispatchMap ∧
        testMastBootstrapDispatchCoverage release.registry.elementList dispatchMap
          release.script = [] := by
  unfold Accepts assertMastBootstrapElementRegistry
  cases getMastBootstrapEmbeddedVersion classes release.scriptPath release.script with
  | error message => simp [bind, Except.bind]
  | ok embedded =>
    by_cases sound : testMastBootstrapElementRegistry release.registry
        (getMastProviderNames release.providerDirectories) embedded = []
    · cases getMastBootstrapDispatchMap classes release.scriptPath release.script with
      | error message => simp [sound, bind, Except.bind]
      | ok dispatchMap =>
        by_cases covered : testMastBootstrapDispatchCoverage release.registry.elementList
            dispatchMap release.script = []
        · simp [sound, covered, bind, Except.bind, pure, Except.pure]
        · simp [sound, covered, bind, Except.bind, throw, throwThe, MonadExceptOf.throw]
    · simp [sound, bind, Except.bind, throw, throwThe, MonadExceptOf.throw]

end CoverageChecks

end MastProvisioning.Build.BootstrapRegistry
