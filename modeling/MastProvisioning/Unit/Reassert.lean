import MastProvisioning.Collections.OrderedDict
import MastProvisioning.PowerShell.SettingsFile
import MastProvisioning.PowerShell.Text
import Mathlib

/-!
# Re-asserting bootstrap elements

`bootstrap.ps1 -ReassertOnly` applies the elements it is asked for on a unit that is
already provisioned, records which of them succeeded, and tells by its exit code whether
all of them did.

What an element puts on the pipeline joins the value its function returns, and the exit
code is made of both; the record is written by a serializer that keeps five levels.
-/

namespace MastProvisioning.Unit.Reassert

open MastProvisioning.Collections
open MastProvisioning.PowerShell (foldText KeepsLower)
open MastProvisioning.PowerShell.SettingsFile (Text isSpace trim)

section Selection

/-- Whether an element is applied unasked. -/
inductive Kind where
  | routine
  | onDemand
deriving DecidableEq, Repr

structure Action where
  kind : Kind
  function : String
deriving DecidableEq, Repr

/-- `$script:MastBootstrapElementActions`. -/
def elementActions : List (String × Action) :=
  [("timezone-israel-dst", ⟨.routine, "Invoke-MastBootstrapElementTimezoneIsraelDst"⟩),
    ("windows-update-suppress", ⟨.routine, "Invoke-MastBootstrapElementWindowsUpdateSuppress"⟩),
    ("popup-notification-suppress",
      ⟨.routine, "Invoke-MastBootstrapElementPopupNotificationSuppress"⟩),
    ("telemetry-privacy-harden", ⟨.routine, "Invoke-MastBootstrapElementTelemetryPrivacyHarden"⟩),
    ("service-trim", ⟨.routine, "Invoke-MastBootstrapElementServiceTrim"⟩),
    ("dhcp-ipv4", ⟨.routine, "Invoke-MastBootstrapElementDhcpIpv4"⟩),
    ("winrm-http-basic", ⟨.onDemand, "Invoke-MastBootstrapElementWinrmHttpBasic"⟩),
    ("openssh-from-msi", ⟨.onDemand, "Invoke-MastBootstrapElementOpensshFromMsi"⟩),
    ("firewall-off", ⟨.routine, "Invoke-MastBootstrapElementFirewallOff"⟩)]

/-- `$script:MastBootstrapElementActions[$Id]`. -/
def actionOf (fold : Char → Char) (id : String) : Option Action :=
  OrderedDict.get? (foldText fold) elementActions id

/-- `$known.Contains($id)`. -/
def isReassertable (fold : Char → Char) (id : String) : Bool :=
  (actionOf fold id).isSome

structure Selection where
  ids : List String
  problems : List String
deriving DecidableEq, Repr

/-- The elements of a blank request. -/
def routineIds : List String :=
  (elementActions.filter fun entry => entry.2.kind = .routine).map Prod.fst

def problemOf (id : String) : String :=
  "'" ++ id ++ "' is not a re-assertable element. Re-assertable: " ++
    ", ".intercalate (elementActions.map Prod.fst)

/-- One piece of a request. -/
def selectPiece (fold : Char → Char) (selection : Selection) (piece : Text) : Selection :=
  let id := String.ofList (trim piece)
  if trim piece = [] then selection
  else if !isReassertable fold id then
    { selection with problems := selection.problems ++ [problemOf id] }
  else if selection.ids.any fun known => foldText fold known = foldText fold id then selection
  else { selection with ids := selection.ids ++ [id] }

/-- `Get-MastReassertSelection`. -/
def getMastReassertSelection (fold : Char → Char) (requested : Text) : Selection :=
  if requested.all isSpace then { ids := routineIds, problems := [] }
  else (requested.splitOn ',').foldl (selectPiece fold) { ids := [], problems := [] }

end Selection

section Record

/-- A JSON value, its numbers as they are printed. -/
inductive Value
  | null
  | bool (value : Bool)
  | number (printed : String)
  | text (value : String)
  | list (items : List Value)
  | object (fields : List (String × Value))

namespace Value

/-- `ConvertTo-Json`: of the containers the given number of levels; what is below becomes
a text. -/
def keepLevels (printed : Value → String) : Nat → Value → Value
  | 0, list items => text (printed (list items))
  | 0, object fields => text (printed (object fields))
  | levels + 1, list items => list (items.map (keepLevels printed levels))
  | levels + 1, object fields =>
    object (fields.map fun field => (field.1, keepLevels printed levels field.2))
  | _, value => value

/-- A value in which containers are nested to the given number of levels at most. -/
def nestedAtMost : Nat → Value → Bool
  | 0, list _ => false
  | 0, object _ => false
  | levels + 1, list items => items.all (nestedAtMost levels)
  | levels + 1, object fields => fields.all fun field => nestedAtMost levels field.2
  | _, _ => true

end Value

/-- `bootstrap-manifest.json` before a run. `ConvertFrom-Json` refuses an object with a name
twice. -/
inductive Manifest (fold : Char → Char)
  | absent
  | unreadable
  | fields (entries : List (String × Value))
      (distinct : OrderedDict.Distinct (foldText fold) entries)

/-- The fields of a manifest that can be read. -/
def Manifest.entries {fold : Char → Char} : Manifest fold → List (String × Value)
  | .fields entries _ => entries
  | _ => []

/-- What a unit brings to a run: its manifest, whether the record can be written, what the
record says of the time and the script, and how a container is printed as a text. -/
structure Machine (fold : Char → Char) where
  manifest : Manifest fold
  writable : Bool
  now : String
  scriptVersion : String
  printed : Value → String

/-- The `reassert` block of a record. -/
def reassertBlock (now scriptVersion : String) (requested applied failed : List String) : Value :=
  .object [("at", .text now), ("script_version", .text scriptVersion),
    ("requested", .list (requested.map .text)), ("applied", .list (applied.map .text)),
    ("failed", .list (failed.map .text))]

/-- `-eq` on a field's name. -/
def isReassert (fold : Char → Char) (entry : String × Value) : Bool :=
  foldText fold entry.1 = foldText fold "reassert"

/-- The document of a record, before it is serialized. -/
def recordDocument (fold : Char → Char) (existing : List (String × Value)) (block : Value) :
    List (String × Value) :=
  let kept := OrderedDict.setAll (foldText fold) [] (existing.filter fun entry => !isReassert fold entry)
  let stamped :=
    if (OrderedDict.find? (foldText fold) kept "bootstrap_version").isSome then kept
    else OrderedDict.set (foldText fold) kept "bootstrap_version" .null
  OrderedDict.set (foldText fold) stamped "reassert" block

/-- `Write-MastReassertRecord`: the fields written, if they are. The document is a level of
its own besides the five below it. -/
def writeMastReassertRecord {fold : Char → Char} (machine : Machine fold)
    (applied failed requested : List String) : Option (List (String × Value)) :=
  let block := reassertBlock machine.now machine.scriptVersion requested applied failed
  match machine.writable, machine.manifest with
  | false, _ | _, .unreadable => none
  | true, manifest =>
    some ((recordDocument fold manifest.entries block).map fun field =>
      (field.1, field.2.keepLevels machine.printed 5))

end Record

section Run

variable {fold : Char → Char} {Emitted : Type}

/-- What the function of an element does: the values it puts on the pipeline, and the
message it throws at last, if it does. -/
structure Behaviour (Emitted : Type) where
  emits : List Emitted
  throws : Option String

/-- The loop over the elements. -/
structure Loop (Emitted : Type) where
  called : List String
  applied : List String
  failed : List String
  emitted : List Emitted

/-- One element: an unknown one throws before anything is called. -/
def applyElement (fold : Char → Char) (behave : String → Behaviour Emitted)
    (state : Loop Emitted) (id : String) : Loop Emitted :=
  match actionOf fold id with
  | none => { state with failed := state.failed ++ [id] }
  | some action =>
    let behaviour := behave action.function
    let called := state.called ++ [action.function]
    let emitted := state.emitted ++ behaviour.emits
    match behaviour.throws with
    | none => { called, emitted, applied := state.applied ++ [id], failed := state.failed }
    | some _ => { called, emitted, applied := state.applied, failed := state.failed ++ [id] }

/-- What is seen of a run. -/
structure Run where
  called : List String
  written : Option (List (String × Value))
  exitCode : Int

/-- `exit` of what a function returned behind the values it let through: more than one
object is an array, which is no number, and that exits with 0. -/
def exitWith (emitted : List Emitted) (code : Int) : Int :=
  if emitted.isEmpty then code else 0

/-- `bootstrap.ps1 -ReassertOnly`, with `Invoke-MastBootstrapReassert`. -/
def reassertOnly (machine : Machine fold) (behave : String → Behaviour Emitted)
    (elements : Text) : Run :=
  let selection := getMastReassertSelection fold elements
  -- The throw of a selection with problems is caught by the script, which exits with 1.
  if selection.problems ≠ [] then { called := [], written := none, exitCode := 1 }
  else if selection.ids = [] then { called := [], written := none, exitCode := 0 }
  else
    let loop := selection.ids.foldl (applyElement fold behave)
      { called := [], applied := [], failed := [], emitted := [] }
    let written := writeMastReassertRecord machine loop.applied loop.failed selection.ids
    let code := if loop.failed ≠ [] then 1 else 0
    { called := loop.called, written, exitCode := exitWith loop.emitted code }

end Run

section Purpose

variable {fold : Char → Char} {Emitted : Type}

/-- The ids a request names. -/
def named (elements : Text) : List String :=
  (((elements.splitOn ',').map trim).filter fun piece => piece ≠ []).map String.ofList

/-- The first mention of each id. -/
def firstMentions (fold : Char → Char) : List String → List String
  | [] => []
  | id :: rest =>
    id :: (firstMentions fold rest).filter fun other => foldText fold other ≠ foldText fold id

/-- The elements that a request asks for. -/
def asked (fold : Char → Char) (elements : Text) : List String :=
  if elements.all isSpace then routineIds else firstMentions fold (named elements)

/-- Every id that is named is re-assertable. -/
def Reassertable (fold : Char → Char) (elements : Text) : Prop :=
  ∀ id ∈ named elements, isReassertable fold id = true

/-- The function of an element that is asked for. -/
def functionOf (fold : Char → Char) (id : String) : String :=
  ((actionOf fold id).map Action.function).getD ""

/-- The element's function throws. -/
def fails (fold : Char → Char) (behave : String → Behaviour Emitted) (id : String) : Bool :=
  (behave (functionOf fold id)).throws.isSome

/-- What a re-assert owes: nothing is run of a request that cannot be, everything is run
once otherwise, and the record and the exit code say what happened. -/
structure SaysSo (machine : Machine fold) (behave : String → Behaviour Emitted) (elements : Text) :
    Prop where
  refuses : ¬Reassertable fold elements →
    (reassertOnly machine behave elements).called = [] ∧
      (reassertOnly machine behave elements).exitCode ≠ 0
  runs : Reassertable fold elements →
    (reassertOnly machine behave elements).called = (asked fold elements).map (functionOf fold)
  once : (reassertOnly machine behave elements).called.Nodup
  records : Reassertable fold elements → ∀ fields,
    (reassertOnly machine behave elements).written = some fields →
      fields.filter (isReassert fold) =
        [("reassert", reassertBlock machine.now machine.scriptVersion (asked fold elements)
          ((asked fold elements).filter fun id => !fails fold behave id)
          ((asked fold elements).filter (fails fold behave)))]
  keeps : Reassertable fold elements → ∀ fields,
    (reassertOnly machine behave elements).written = some fields →
      ∀ entry ∈ machine.manifest.entries, entry.1 ≠ "reassert" → entry ∈ fields
  tells : Reassertable fold elements →
    ((reassertOnly machine behave elements).exitCode = 0 ↔
      ∀ id ∈ asked fold elements, fails fold behave id = false)

end Purpose

section Table

variable {fold : Char → Char} {id other : String}

/-- What no folding of letters changes of an id: its length and its first letter. -/
theorem length_first_of_fold {first : String} (keeps : KeepsLower fold)
    (lower : first.toList.head?.all Char.isLower = true)
    (lowerOther : other.toList.head?.all Char.isLower = true)
    (same : foldText fold first = foldText fold other) :
    (first.toList.length, first.toList.head?) = (other.toList.length, other.toList.head?) := by
  have folded : first.toList.map fold = other.toList.map fold := by
    simpa [foldText] using congrArg String.toList same
  have lengths : first.toList.length = other.toList.length := by
    simpa using congrArg List.length folded
  have heads : first.toList.head?.map fold = other.toList.head?.map fold := by
    simpa using congrArg List.head? folded
  have kept : ∀ {text : String}, text.toList.head?.all Char.isLower = true →
      text.toList.head?.map fold = text.toList.head? := by
    intro text lower
    cases found : text.toList.head? with
    | none => rfl
    | some letter =>
      rw [found, Option.all_some] at lower
      rw [Option.map_some, keeps letter lower]
  rw [kept lower, kept lowerOther] at heads
  rw [lengths, heads]

/-- PowerShell builds the table under every culture that keeps lower case. -/
theorem distinct_elementActions (keeps : KeepsLower fold) :
    OrderedDict.Distinct (foldText fold) elementActions := by
  have lower : elementActions.all (fun entry => entry.1.toList.head?.all Char.isLower) = true := by
    decide
  rw [List.all_eq_true] at lower
  have apart : (elementActions.map fun entry =>
      (entry.1.toList.length, entry.1.toList.head?)).Nodup := by decide +kernel
  have keys : elementActions.Nodup := apart.of_map _
  refine keys.map_on fun entry member second secondMember same => ?_
  exact List.inj_on_of_nodup_map apart member secondMember
    (length_first_of_fold keeps (lower entry member) (lower second secondMember) same)

theorem functions_nodup : (elementActions.map fun entry => entry.2.function).Nodup := by
  simp [elementActions]

/-- Two ids with the function of one element are the same id. -/
theorem fold_of_functionOf (known : isReassertable fold id = true)
    (knownOther : isReassertable fold other = true)
    (same : functionOf fold id = functionOf fold other) : foldText fold id = foldText fold other := by
  have entryOf : ∀ {name : String}, isReassertable fold name = true →
      ∃ entry ∈ elementActions, foldText fold entry.1 = foldText fold name ∧
        functionOf fold name = entry.2.function := by
    intro name known
    unfold isReassertable actionOf OrderedDict.get? at known
    rw [Option.isSome_map] at known
    obtain ⟨entry, found⟩ := Option.isSome_iff_exists.mp known
    obtain ⟨member, key⟩ := OrderedDict.mem_of_find? found
    refine ⟨entry, member, key, ?_⟩
    rw [functionOf, actionOf, OrderedDict.get?, found]
    rfl
  obtain ⟨entry, member, key, function⟩ := entryOf known
  obtain ⟨second, secondMember, secondKey, secondFunction⟩ := entryOf knownOther
  have equal : entry = second :=
    List.inj_on_of_nodup_map functions_nodup member secondMember
      (function.symm.trans (same.trans secondFunction))
  rw [← key, equal, secondKey]

theorem isReassertable_routine (member : id ∈ routineIds) : isReassertable fold id = true := by
  obtain ⟨entry, inTable, rfl⟩ := List.mem_map.mp member
  rw [isReassertable, actionOf, OrderedDict.get?, Option.isSome_map, OrderedDict.find?, List.find?_isSome]
  exact ⟨entry, List.mem_of_mem_filter inTable, decide_eq_true rfl⟩

end Table

section Selecting

variable {fold : Char → Char} {id : String}

/-- The ids that pieces of a request name. -/
def namesOf (pieces : List Text) : List String :=
  ((pieces.map trim).filter fun piece => piece ≠ []).map String.ofList

theorem mem_firstMentions {ids : List String} : ∀ id ∈ firstMentions fold ids, id ∈ ids := by
  induction ids with
  | nil => exact fun _ member => member
  | cons first rest ih =>
    intro id member
    rcases List.mem_cons.mp member with rfl | later
    · exact List.mem_cons_self
    · exact List.mem_cons_of_mem _ (ih id (List.mem_of_mem_filter later))

theorem pairwise_firstMentions (ids : List String) :
    (firstMentions fold ids).Pairwise fun first second =>
      foldText fold first ≠ foldText fold second := by
  induction ids with
  | nil => exact .nil
  | cons first rest ih =>
    refine List.pairwise_cons.mpr ⟨fun other member => ?_, ih.filter _⟩
    have apart := (List.mem_filter.mp member).2
    exact (of_decide_eq_true apart).symm

/-- The ids selected, by induction on the pieces: the first mention of each that is known
and not there yet. -/
theorem ids_foldl (fold : Char → Char) (pieces : List Text) (selection : Selection) :
    (pieces.foldl (selectPiece fold) selection).ids =
      selection.ids ++ (firstMentions fold ((namesOf pieces).filter (isReassertable fold))).filter fun id =>
          !selection.ids.any fun known => foldText fold known = foldText fold id := by
  induction pieces generalizing selection with
  | nil => simp [namesOf, firstMentions]
  | cons piece pieces ih =>
    rw [List.foldl_cons, ih]
    by_cases blank : trim piece = []
    · have names : namesOf (piece :: pieces) = namesOf pieces := by simp [namesOf, blank]
      rw [selectPiece, if_pos blank, names]
    have names : namesOf (piece :: pieces) = String.ofList (trim piece) :: namesOf pieces := by
      simp [namesOf, blank]
    rw [names, selectPiece, if_neg blank]
    cases known : isReassertable fold (String.ofList (trim piece)) with
    | false => rw [if_pos (by simp), List.filter_cons_of_neg (by simp [known])]
    | true =>
    rw [if_neg (by simp), List.filter_cons_of_pos known, firstMentions]
    generalize String.ofList (trim piece) = id
    generalize firstMentions fold ((namesOf pieces).filter (isReassertable fold)) = later
    by_cases again : (selection.ids.any fun known => foldText fold known = foldText fold id) = true
    · rw [if_pos again, List.filter_cons_of_neg (by simp [again]), List.filter_filter]
      refine congrArg (selection.ids ++ ·) (List.filter_congr fun other _ => ?_)
      by_cases same : foldText fold other = foldText fold id
      · simp only [same, ne_eq, not_true_eq_false, decide_false, again, Bool.not_true,
          Bool.and_false]
      · simp [same]
    · rw [if_neg again, List.filter_cons_of_pos (by simp [again]), List.filter_filter,
        List.append_assoc, List.singleton_append]
      refine congrArg (selection.ids ++ id :: ·) (List.filter_congr fun other _ => ?_)
      simp [eq_comm]

theorem problems_foldl (fold : Char → Char) (pieces : List Text) (selection : Selection) :
    (pieces.foldl (selectPiece fold) selection).problems =
      selection.problems ++ ((namesOf pieces).filter fun id =>
        !isReassertable fold id).map problemOf := by
  induction pieces generalizing selection with
  | nil => simp [namesOf]
  | cons piece pieces ih =>
    rw [List.foldl_cons, ih]
    by_cases blank : trim piece = []
    · have names : namesOf (piece :: pieces) = namesOf pieces := by simp [namesOf, blank]
      rw [selectPiece, if_pos blank, names]
    have names : namesOf (piece :: pieces) = String.ofList (trim piece) :: namesOf pieces := by
      simp [namesOf, blank]
    rw [names, selectPiece, if_neg blank]
    cases known : isReassertable fold (String.ofList (trim piece)) with
    | false =>
      rw [if_pos (by simp), List.filter_cons_of_pos (by simp [known]), List.map_cons, List.append_assoc,
        List.singleton_append]
    | true =>
      rw [if_neg (by simp), List.filter_cons_of_neg (by simp [known])]
      split <;> rfl

theorem named_of_blank {elements : Text} (blank : elements.all isSpace = true) :
    named elements = [] := by
  have plain : ',' ∉ elements := by
    intro member
    exact absurd (List.all_eq_true.mp blank ',' member) (by decide)
  have empty : trim elements = [] := by
    rw [trim, List.dropWhile_eq_nil_iff.mpr (List.all_eq_true.mp blank), List.rdropWhile_nil]
  simp [named, List.splitOn_eq_singleton plain, empty]

/-- A request that can be run selects what it asks for. -/
theorem selection_of_reassertable {elements : Text} (can : Reassertable fold elements) :
    getMastReassertSelection fold elements = { ids := asked fold elements, problems := [] } := by
  unfold getMastReassertSelection asked
  split
  · rfl
  · have all : (named elements).filter (isReassertable fold) = named elements :=
      List.filter_eq_self.mpr can
    have none : (named elements).filter (fun id => !isReassertable fold id) = [] :=
      List.filter_eq_nil_iff.mpr fun id member => by simp [can id member]
    have ids := ids_foldl fold (elements.splitOn ',') { ids := [], problems := [] }
    have problems := problems_foldl fold (elements.splitOn ',') { ids := [], problems := [] }
    change _ = [] ++ (firstMentions fold ((named elements).filter (isReassertable fold))).filter _ at ids
    change _ = [] ++ ((named elements).filter fun id => !isReassertable fold id).map problemOf
      at problems
    rw [all, List.nil_append, List.filter_eq_self.mpr (by simp)] at ids
    rw [none, List.map_nil, List.append_nil] at problems
    generalize (elements.splitOn ',').foldl (selectPiece fold) { ids := [], problems := [] } = result
      at ids problems ⊢
    cases result
    exact Selection.mk.injEq .. ▸ ⟨ids, problems⟩

/-- Of any other request it says what is wrong. -/
theorem problems_of_not_reassertable {elements : Text} (cannot : ¬Reassertable fold elements) :
    (getMastReassertSelection fold elements).problems ≠ [] := by
  unfold Reassertable at cannot
  push Not at cannot
  obtain ⟨id, member, unknown⟩ := cannot
  have notBlank : ¬elements.all isSpace = true := by
    intro blank
    rw [named_of_blank blank] at member
    cases member
  rw [getMastReassertSelection, if_neg notBlank, problems_foldl, List.nil_append]
  have problem : id ∈ (namesOf (elements.splitOn ',')).filter fun id => !isReassertable fold id :=
    List.mem_filter.mpr ⟨member, by simpa using unknown⟩
  exact List.ne_nil_of_mem (List.mem_map_of_mem problem)

theorem isReassertable_asked {elements : Text} (can : Reassertable fold elements) :
    ∀ id ∈ asked fold elements, isReassertable fold id = true := by
  intro id member
  unfold asked at member
  split at member
  · exact isReassertable_routine member
  · exact can id (mem_firstMentions id member)

/-- No id is asked for twice. -/
theorem pairwise_asked (keeps : KeepsLower fold) (elements : Text) :
    (asked fold elements).Pairwise fun first second =>
      foldText fold first ≠ foldText fold second := by
  unfold asked
  split
  · have distinct := distinct_elementActions keeps
    unfold OrderedDict.Distinct at distinct
    rw [List.Nodup, List.pairwise_map] at distinct
    exact List.pairwise_map.mpr (distinct.filter _)
  · exact pairwise_firstMentions _

theorem functions_asked (keeps : KeepsLower fold) {elements : Text}
    (can : Reassertable fold elements) :
    ((asked fold elements).map (functionOf fold)).Nodup := by
  rw [List.Nodup, List.pairwise_map]
  refine (pairwise_asked keeps elements).imp_of_mem ?_
  intro first second member secondMember apart same
  exact apart (fold_of_functionOf (isReassertable_asked can first member)
    (isReassertable_asked can second secondMember) same)

end Selecting

section Looping

variable {fold : Char → Char} {Emitted : Type} {behave : String → Behaviour Emitted}

/-- One element, when it is known. -/
theorem applyElement_eq {id : String} (known : isReassertable fold id = true)
    (state : Loop Emitted) :
    applyElement fold behave state id =
      { called := state.called ++ [functionOf fold id]
        applied := state.applied ++ [id].filter fun id => !fails fold behave id
        failed := state.failed ++ [id].filter (fails fold behave)
        emitted := state.emitted ++ (behave (functionOf fold id)).emits } := by
  unfold isReassertable at known
  obtain ⟨action, found⟩ := Option.isSome_iff_exists.mp known
  have function : functionOf fold id = action.function := by rw [functionOf, found]; rfl
  rw [applyElement, found]
  simp only [function]
  cases thrown : (behave action.function).throws with
  | none =>
    have passes : fails fold behave id = false := by rw [fails, function, thrown]; rfl
    simp [passes]
  | some message =>
    have failing : fails fold behave id = true := by rw [fails, function, thrown]; rfl
    simp [failing]

/-- The whole loop, by induction on the elements: a failure leaves the others as they are. -/
theorem foldl_applyElement {ids : List String}
    (known : ∀ id ∈ ids, isReassertable fold id = true) (state : Loop Emitted) :
    ids.foldl (applyElement fold behave) state =
      { called := state.called ++ ids.map (functionOf fold)
        applied := state.applied ++ ids.filter fun id => !fails fold behave id
        failed := state.failed ++ ids.filter (fails fold behave)
        emitted := state.emitted ++ ids.flatMap fun id => (behave (functionOf fold id)).emits } := by
  induction ids generalizing state with
  | nil => simp
  | cons id ids ih =>
    obtain ⟨here, later⟩ := List.forall_mem_cons.mp known
    rw [List.foldl_cons, applyElement_eq here, ih later]
    have split : ∀ keep : String → Bool, (id :: ids).filter keep = [id].filter keep ++ ids.filter keep :=
      fun keep => List.filter_append [id] ids
    simp [split]

end Looping

section Serializing

variable {printed : Value → String}

namespace Value

/-- What is written is nested no deeper than the levels that are kept. -/
theorem nestedAtMost_keepLevels (levels : Nat) (value : Value) :
    (keepLevels printed levels value).nestedAtMost levels = true := by
  induction levels generalizing value with
  | zero => cases value <;> rfl
  | succ levels ih =>
    cases value with
    | list items => simp [keepLevels, nestedAtMost, ih]
    | object fields => simp [keepLevels, nestedAtMost, ih]
    | _ => rfl

theorem keepLevels_of_nestedAtMost {levels : Nat} {value : Value}
    (nested : value.nestedAtMost levels = true) : keepLevels printed levels value = value := by
  induction levels generalizing value with
  | zero =>
    cases value with
    | list items => cases nested
    | object fields => cases nested
    | _ => rfl
  | succ levels ih =>
    cases value with
    | list items =>
      rw [nestedAtMost, List.all_eq_true] at nested
      rw [keepLevels]
      exact congrArg list ((List.map_congr_left fun item member => ih (nested item member)).trans
        (List.map_id' items))
    | object fields =>
      rw [nestedAtMost, List.all_eq_true] at nested
      rw [keepLevels]
      refine congrArg object ((List.map_congr_left fun field member => ?_).trans (List.map_id' fields))
      rw [ih (nested field member)]
    | _ => rfl

end Value

end Serializing

section Recording

variable {fold : Char → Char} {machine : Machine fold} {applied failed requested : List String}
  {fields : List (String × Value)}

/-- The other names of a record are not the block's, in any case. -/
theorem version_ne_reassert :
    foldText fold "bootstrap_version" ≠ foldText fold "reassert" := by
  intro same
  have lengths := congrArg (fun text => text.toList.length) same
  simp [foldText] at lengths

/-- A record is the fields kept, a version when there was none, and the block. -/
theorem recordDocument_eq {existing : List (String × Value)}
    (distinct : OrderedDict.Distinct (foldText fold) existing) (block : Value) :
    ∃ version, (∀ entry ∈ version, entry = ("bootstrap_version", Value.null)) ∧
      recordDocument fold existing block =
        (existing.filter fun entry => !isReassert fold entry) ++ version ++ [("reassert", block)] := by
  have kept : OrderedDict.setAll (foldText fold) []
      (existing.filter fun entry => !isReassert fold entry) =
      existing.filter fun entry => !isReassert fold entry := by
    rw [OrderedDict.setAll_of_distinct, List.nil_append]
    exact distinct.filter _
  have apart : ∀ entry ∈ existing.filter fun entry => !isReassert fold entry,
      foldText fold entry.1 ≠ foldText fold "reassert" := by
    intro entry member
    simpa [isReassert] using (List.mem_filter.mp member).2
  unfold recordDocument
  simp only [kept]
  split
  · refine ⟨[], by simp, ?_⟩
    rw [OrderedDict.set_of_fresh apart, List.append_nil]
  · rename_i absent
    have fresh : ∀ entry ∈ existing.filter fun entry => !isReassert fold entry,
        foldText fold entry.1 ≠ foldText fold "bootstrap_version" := by
      rw [← OrderedDict.find?_eq_none]
      simpa using absent
    refine ⟨[("bootstrap_version", .null)], by simp, ?_⟩
    rw [OrderedDict.set_of_fresh fresh, OrderedDict.set_of_fresh]
    intro entry member
    rcases List.mem_append.mp member with old | new
    · exact apart entry old
    · rw [List.mem_singleton.mp new]
      exact version_ne_reassert

theorem Manifest.distinct_entries (manifest : Manifest fold) :
    OrderedDict.Distinct (foldText fold) manifest.entries := by
  cases manifest with
  | absent => exact OrderedDict.distinct_nil
  | unreadable => exact OrderedDict.distinct_nil
  | fields entries distinct => exact distinct

/-- A record that is written is the document, five levels of it below the first. -/
theorem written_eq (written : writeMastReassertRecord machine applied failed requested = some fields) :
    fields = (recordDocument fold machine.manifest.entries
      (reassertBlock machine.now machine.scriptVersion requested applied failed)).map
        fun field => (field.1, field.2.keepLevels machine.printed 5) := by
  unfold writeMastReassertRecord at written
  split at written
  · cases written
  · cases written
  · exact (Option.some.inj written).symm

theorem writable_of_written
    (written : writeMastReassertRecord machine applied failed requested = some fields) :
    machine.writable = true := by
  cases writable : machine.writable with
  | true => rfl
  | false =>
    rw [writeMastReassertRecord, writable] at written
    cases written

/-- It is written of every manifest that has fields, unless it cannot be. -/
theorem written_of_entry (applied failed requested : List String) {entry : String × Value} (writable : machine.writable = true)
    (member : entry ∈ machine.manifest.entries) :
    (writeMastReassertRecord machine applied failed requested).isSome = true := by
  unfold writeMastReassertRecord
  rw [writable]
  cases manifest : machine.manifest with
  | absent => rfl
  | unreadable =>
    rw [manifest] at member
    cases member
  | fields entries distinct => rfl

theorem keepLevels_block (printed : Value → String) (now version : String) :
    (reassertBlock now version requested applied failed).keepLevels printed 5 =
      reassertBlock now version requested applied failed := by
  apply Value.keepLevels_of_nestedAtMost
  simp [reassertBlock, Value.nestedAtMost]

/-- The record has one block, with the ids as they are given. -/
theorem block_written
    (written : writeMastReassertRecord machine applied failed requested = some fields) :
    fields.filter (isReassert fold) =
      [("reassert", reassertBlock machine.now machine.scriptVersion requested applied failed)] := by
  obtain ⟨version, isVersion, document⟩ := recordDocument_eq machine.manifest.distinct_entries
    (reassertBlock machine.now machine.scriptVersion requested applied failed)
  have kept : ∀ entry ∈ (machine.manifest.entries.filter fun entry => !isReassert fold entry) ++
      version, isReassert fold (entry.1, entry.2.keepLevels machine.printed 5) = false := by
    intro entry member
    rcases List.mem_append.mp member with old | new
    · simpa [isReassert] using (List.mem_filter.mp old).2
    · rw [isVersion entry new]
      exact decide_eq_false version_ne_reassert
  rw [written_eq written, document, List.map_append, List.filter_append]
  have none : (((machine.manifest.entries.filter fun entry => !isReassert fold entry) ++ version).map
      fun field => (field.1, field.2.keepLevels machine.printed 5)).filter (isReassert fold) = [] := by
    rw [List.filter_eq_nil_iff]
    intro entry member
    obtain ⟨source, inDocument, rfl⟩ := List.mem_map.mp member
    rw [kept source inDocument]
    exact Bool.false_ne_true
  rw [none, List.nil_append]
  simp [isReassert, keepLevels_block]

/-- A field is kept as it is exactly when its name is no spelling of the block's and it is
nested five levels at most. -/
theorem entry_kept_iff
    (written : writeMastReassertRecord machine applied failed requested = some fields)
    {entry : String × Value} (member : entry ∈ machine.manifest.entries)
    (other : entry.1 ≠ "reassert") :
    entry ∈ fields ↔ isReassert fold entry = false ∧ entry.2.nestedAtMost 5 = true := by
  constructor
  · intro kept
    constructor
    · rw [← Bool.not_eq_true]
      intro named
      have block : entry ∈ fields.filter (isReassert fold) := List.mem_filter.mpr ⟨kept, named⟩
      rw [block_written written, List.mem_singleton] at block
      exact other (congrArg Prod.fst block)
    · rw [written_eq written] at kept
      obtain ⟨source, -, shape⟩ := List.mem_map.mp kept
      rw [← shape]
      exact Value.nestedAtMost_keepLevels 5 _
  · rintro ⟨named, nested⟩
    obtain ⟨version, -, document⟩ := recordDocument_eq machine.manifest.distinct_entries
      (reassertBlock machine.now machine.scriptVersion requested applied failed)
    rw [written_eq written, document]
    refine List.mem_map.mpr ⟨entry, ?_, ?_⟩
    · exact List.mem_append_left _
        (List.mem_append_left _ (List.mem_filter.mpr ⟨member, by rw [named]; rfl⟩))
    · rw [Value.keepLevels_of_nestedAtMost nested]

end Recording

section Telling

variable {fold : Char → Char} {Emitted : Type} {machine : Machine fold}
  {behave : String → Behaviour Emitted} {elements : Text}

/-- What lets a run say what happened: when an element fails, no element puts a value on the
pipeline; and a field of the manifest that is kept has no spelling of `reassert` for its
name and five levels of containers at most. -/
structure Truthful (machine : Machine fold) (behave : String → Behaviour Emitted)
    (elements : Text) : Prop where
  quiet : (∃ id ∈ asked fold elements, fails fold behave id = true) →
    ∀ id ∈ asked fold elements, (behave (functionOf fold id)).emits = []
  shallow : asked fold elements ≠ [] → machine.writable = true →
    ∀ entry ∈ machine.manifest.entries, entry.1 ≠ "reassert" →
      isReassert fold entry = false ∧ entry.2.nestedAtMost 5 = true

theorem reassertOnly_refused (machine : Machine fold) (behave : String → Behaviour Emitted)
    (cannot : ¬Reassertable fold elements) :
    reassertOnly machine behave elements = { called := [], written := none, exitCode := 1 } := by
  rw [reassertOnly]
  exact if_pos (problems_of_not_reassertable cannot)

/-- A run of a request that can be run. -/
theorem reassertOnly_eq (machine : Machine fold) (behave : String → Behaviour Emitted)
    (can : Reassertable fold elements) :
    reassertOnly machine behave elements =
      if asked fold elements = [] then { called := [], written := none, exitCode := 0 }
      else
        { called := (asked fold elements).map (functionOf fold)
          written := writeMastReassertRecord machine
            ((asked fold elements).filter fun id => !fails fold behave id)
            ((asked fold elements).filter (fails fold behave)) (asked fold elements)
          exitCode := exitWith
            ((asked fold elements).flatMap fun id => (behave (functionOf fold id)).emits)
            (if (asked fold elements).filter (fails fold behave) ≠ [] then 1 else 0) } := by
  rw [reassertOnly, selection_of_reassertable can]
  simp only [ne_eq, not_true_eq_false, if_false]
  split
  · rfl
  · rw [foldl_applyElement (isReassertable_asked can)]
    simp only [List.nil_append]

theorem exitWith_eq_zero_iff {emitted : List Emitted} {failed : List String} :
    exitWith emitted (if failed ≠ [] then 1 else 0) = 0 ↔ emitted ≠ [] ∨ failed = [] := by
  unfold exitWith
  by_cases silent : emitted = []
  · by_cases none : failed = [] <;> simp [silent, none]
  · simp [silent]

/-- The exit code of a request that can be run. -/
theorem exitCode_eq_zero_iff (machine : Machine fold) (can : Reassertable fold elements) :
    (reassertOnly machine behave elements).exitCode = 0 ↔
      (∃ id ∈ asked fold elements, (behave (functionOf fold id)).emits ≠ []) ∨
        ∀ id ∈ asked fold elements, fails fold behave id = false := by
  have noneFails : (asked fold elements).filter (fails fold behave) = [] ↔
      ∀ id ∈ asked fold elements, fails fold behave id = false := by
    simp [List.filter_eq_nil_iff]
  rw [reassertOnly_eq machine behave can]
  split
  · rename_i empty
    simp [empty]
  · rw [exitWith_eq_zero_iff, noneFails]
    simp [List.flatMap_eq_nil_iff]

/-- A re-assert does what it owes exactly when the request cannot be run at all, or no
element fails in a run in which one puts a value on the pipeline and the manifest is no
deeper than the serializer keeps. -/
theorem saysSo_iff (keeps : KeepsLower fold) :
    SaysSo machine behave elements ↔
      (Reassertable fold elements → Truthful machine behave elements) := by
  constructor
  · intro owed can
    constructor
    · intro failing id member
      by_contra emits
      obtain ⟨failed, isAsked, fails⟩ := failing
      have zero := (exitCode_eq_zero_iff machine can).mpr (.inl ⟨id, member, emits⟩)
      have passes := (owed.tells can).mp zero failed isAsked
      rw [fails] at passes
      cases passes
    · intro filled writable entry member other
      have run := reassertOnly_eq machine behave can
      rw [if_neg filled] at run
      obtain ⟨fields, written⟩ := Option.isSome_iff_exists.mp
        (written_of_entry ((asked fold elements).filter fun id => !fails fold behave id)
          ((asked fold elements).filter (fails fold behave)) (asked fold elements) writable member)
      have kept := owed.keeps can fields (by rw [run]; exact written) entry member other
      exact (entry_kept_iff written member other).mp kept
  · intro truthful
    by_cases can : Reassertable fold elements
    · have run := reassertOnly_eq machine behave can
      have truth := truthful can
      constructor
      · exact fun cannot => absurd can cannot
      · intro _
        rw [run]
        split
        · rename_i empty
          rw [empty, List.map_nil]
        · rfl
      · rw [run]
        split
        · exact List.nodup_nil
        · exact functions_asked keeps can
      · intro _ fields written
        rw [run] at written
        split at written
        · cases written
        · exact block_written written
      · intro _ fields written entry member other
        rw [run] at written
        split at written
        · cases written
        · rename_i filled
          exact (entry_kept_iff written member other).mpr
            (truth.shallow filled (writable_of_written written) entry member other)
      · intro _
        rw [exitCode_eq_zero_iff machine can]
        constructor
        · rintro (⟨id, member, emits⟩ | passes)
          · intro failed isAsked
            rw [← Bool.not_eq_true]
            intro fails
            exact emits (truth.quiet ⟨failed, isAsked, fails⟩ id member)
          · exact passes
        · exact .inr
    · have refused := reassertOnly_refused machine behave can
      constructor
      · intro _
        rw [refused]
        exact ⟨rfl, by decide⟩
      · exact fun possible => absurd possible can
      · rw [refused]
        exact List.nodup_nil
      · exact fun possible => absurd possible can
      · exact fun possible => absurd possible can
      · exact fun possible => absurd possible can

/-- A unit with a manifest. -/
def stampedMachine : Machine Char.toLower where
  manifest := .fields [("bootstrap_version", .text "3.1"), ("hostname", .text "mast01")]
    (List.nodup_iff_pairwise_ne.mpr (by decide +kernel))
  writable := true
  now := "2026-09-01T00:00:00Z"
  scriptVersion := "3.2"
  printed := fun _ => ""

/-- Every element does its work without a word. -/
theorem saysSo_stamped :
    SaysSo stampedMachine (fun _ => (⟨[], none⟩ : Behaviour Unit)) "firewall-off, DHCP-ipv4".toList :=
  (saysSo_iff PowerShell.keepsLower_toLower).mpr fun _ =>
    { quiet := fun _ _ _ => rfl
      shallow := fun _ _ entry member _ => by
        rcases List.mem_cons.mp member with rfl | later
        · decide +kernel
        · rw [List.mem_singleton.mp later]
          decide +kernel }

/-- An element that puts a value on the pipeline and then throws: the run exits with 0. -/
theorem failure_not_told :
    ¬SaysSo stampedMachine (fun _ => (⟨[()], some "access denied"⟩ : Behaviour Unit))
      "firewall-off".toList := by
  intro owed
  have can : Reassertable Char.toLower "firewall-off".toList := by
    unfold Reassertable
    decide +kernel
  have zero : (reassertOnly stampedMachine (fun _ => (⟨[()], some "access denied"⟩ : Behaviour Unit))
      "firewall-off".toList).exitCode = 0 := by
    decide +kernel
  exact absurd ((owed.tells can).mp zero "firewall-off" (by decide +kernel)) (by decide +kernel)

end Telling

end MastProvisioning.Unit.Reassert
