import MastProvisioning.Collections.OrderedDict
import MastProvisioning.PowerShell.SettingsFile
import Mathlib

/-!
# The unit registry

`unit-registry.json` is read into entries and written back from them. The reader refuses a
key it does not know, strips its identifiers and takes null for absent; the writer leaves
out what is absent. What the writer writes the reader reads as the entries it was written
from.
-/

namespace MastProvisioning.Driver.RegistryFile

open MastProvisioning.Collections
open MastProvisioning.PowerShell.SettingsFile (trim trim_trim)

section Entries

/-- A value of a parsed document. -/
inductive Value
  | null
  | bool (value : Bool)
  | integer (value : Int)
  | number (printed : String)
  | text (value : String)
  | list (items : List Value)
  | object (fields : List (String × Value))

/-- A text without white space around it that is not empty. -/
structure Identifier where
  text : String
  stripped : trim text.toList = text.toList
  nonempty : text ≠ ""
deriving DecidableEq

structure MaintenanceWindow where
  startHour : Int
  endHour : Int
deriving DecidableEq, Repr

/-- `UnitEntry`. -/
structure UnitEntry where
  hostname : Identifier
  site : Identifier
  comment : Option String
  timezone : Option String
  maintenanceWindow : Option MaintenanceWindow
  ip : Option String
  mac : Option String
  modules : Option (List String)
  excluded : Option Identifier
deriving DecidableEq

end Entries

section Reading

/-- How a model reads a whole number: an integer as it is, of other values those it
converts. -/
structure Coercion where
  toInt : Value → Option Int
  toInt_integer : ∀ value, toInt (.integer value) = some value

variable (coercion : Coercion)

def readText : Value → Option String
  | .text value => some value
  | _ => none

/-- A text, stripped, that is not empty then. -/
def readIdentifier : Value → Option Identifier
  | .text value =>
    if nonempty : String.ofList (trim value.toList) = "" then none
    else some ⟨String.ofList (trim value.toList), by simp [trim_trim], nonempty⟩
  | _ => none

/-- A list of texts. -/
def readTexts : Value → Option (List String)
  | .list items => items.mapM readText
  | _ => none

def readWindow : Value → Option MaintenanceWindow
  | .object fields => do
    guard (fields.all fun field => ["start_hour", "end_hour"].contains field.1)
    let startHour ← (OrderedDict.get? id fields "start_hour").bind coercion.toInt
    let endHour ← (OrderedDict.get? id fields "end_hour").bind coercion.toInt
    return ⟨startHour, endHour⟩
  | _ => none

/-- A field that may be absent or null. -/
def optional {Read : Type} (read : Value → Option Read) : Option Value → Option (Option Read)
  | none | some .null => some none
  | some value => (read value).map some

/-- The keys an entry may have; `comment` is read under its own name too. -/
def entryKeys : List String :=
  ["hostname", "site", "_comment", "comment", "timezone", "maintenance_window", "ip", "mac",
    "modules", "excluded"]

/-- `UnitEntry.model_validate`. -/
def validateEntry : Value → Option UnitEntry
  | .object fields => do
    let field := OrderedDict.get? id fields
    guard (fields.all fun field => entryKeys.contains field.1)
    guard ¬((field "_comment").isSome ∧ (field "comment").isSome)
    let hostname ← (field "hostname").bind readIdentifier
    let site ← (field "site").bind readIdentifier
    let comment ← optional readText ((field "_comment").or (field "comment"))
    let timezone ← optional readText (field "timezone")
    let maintenanceWindow ← optional (readWindow coercion) (field "maintenance_window")
    let ip ← optional readText (field "ip")
    let mac ← optional readText (field "mac")
    let modules ← optional readTexts (field "modules")
    let excluded ← optional readIdentifier (field "excluded")
    return { hostname, site, comment, timezone, maintenanceWindow, ip, mac, modules, excluded }
  | _ => none

/-- `load_unit_registry`; none when it raises. -/
def loadUnitRegistry : Value → Option (List UnitEntry)
  | .list entries => entries.mapM (validateEntry coercion)
  | _ => none

end Reading

section Writing

def windowValue (window : MaintenanceWindow) : Value :=
  .object [("start_hour", .integer window.startHour), ("end_hour", .integer window.endHour)]

/-- The fields of an entry under the keys of the file. -/
def entryFields (entry : UnitEntry) : List (String × Option Value) :=
  [("hostname", some (.text entry.hostname.text)), ("site", some (.text entry.site.text)),
    ("_comment", entry.comment.map .text), ("timezone", entry.timezone.map .text),
    ("maintenance_window", entry.maintenanceWindow.map windowValue), ("ip", entry.ip.map .text),
    ("mac", entry.mac.map .text), ("modules", entry.modules.map fun names => .list (names.map .text)),
    ("excluded", entry.excluded.map fun reason => .text reason.text)]

/-- `model_dump(by_alias=True, exclude_none=True)`. -/
def dumpEntry (entry : UnitEntry) : Value :=
  .object ((entryFields entry).filterMap fun field => field.2.map (Prod.mk field.1))

/-- `dump_unit_registry`. -/
def dumpUnitRegistry (entries : List UnitEntry) : Value :=
  .list (entries.map dumpEntry)

end Writing

section RoundTrip

variable {coercion : Coercion}

/-- What is written under a key is what is read under it. -/
theorem field_dumpEntry (entry : UnitEntry) (key : String) :
    OrderedDict.get? id ((entryFields entry).filterMap fun field => field.2.map (Prod.mk field.1))
      key = (OrderedDict.get? id (entryFields entry) key).bind id := by
  have distinct : OrderedDict.Distinct id (entryFields entry) := by
    unfold OrderedDict.Distinct
    show (["hostname", "site", "_comment", "timezone", "maintenance_window", "ip", "mac",
      "modules", "excluded"] : List String).Nodup
    decide
  exact OrderedDict.get?_filterMap distinct id key

theorem readIdentifier_text (identifier : Identifier) :
    readIdentifier (.text identifier.text) = some identifier := by
  have same : String.ofList (trim identifier.text.toList) = identifier.text := by
    rw [identifier.stripped, String.ofList_toList]
  have nonempty : ¬String.ofList (trim identifier.text.toList) = "" := by
    rw [same]
    exact identifier.nonempty
  rw [readIdentifier, dif_neg nonempty]
  cases identifier
  simpa using same

/-- A field that is left out when it is none is read back. -/
theorem optional_map {Read : Type} {read : Value → Option Read} {write : Read → Value}
    (inverse : ∀ value, read (write value) = some value) (filled : ∀ value, write value ≠ .null)
    (field : Option Read) : optional read (field.map write) = some field := by
  cases field with
  | none => rfl
  | some value =>
    rw [Option.map_some, optional, inverse, Option.map_some]
    exact filled value

theorem readTexts_list (names : List String) : readTexts (.list (names.map .text)) = some names := by
  rw [readTexts]
  induction names with
  | nil => rfl
  | cons name rest ih =>
    rw [List.map_cons, List.mapM_cons, ih]
    rfl

theorem readWindow_windowValue (window : MaintenanceWindow) :
    readWindow coercion (windowValue window) = some window := by
  have starts : OrderedDict.get? id [("start_hour", Value.integer window.startHour),
      ("end_hour", .integer window.endHour)] "start_hour" = some (.integer window.startHour) := rfl
  have ends : OrderedDict.get? id [("start_hour", Value.integer window.startHour),
      ("end_hour", .integer window.endHour)] "end_hour" = some (.integer window.endHour) := rfl
  rw [windowValue, readWindow, starts, ends, Option.bind_some, Option.bind_some,
    coercion.toInt_integer, coercion.toInt_integer]
  rfl

/-- What the writer writes of an entry the reader reads as the entry. -/
theorem validateEntry_dumpEntry (entry : UnitEntry) :
    validateEntry coercion (dumpEntry entry) = some entry := by
  have known : (((entryFields entry).filterMap fun field => field.2.map (Prod.mk field.1)).all
      fun field => entryKeys.contains field.1) = true := by
    apply List.all_eq_true.mpr
    intro field member
    obtain ⟨written, inFields, isField⟩ := List.mem_filterMap.mp member
    obtain ⟨value, -, rfl⟩ := Option.map_eq_some_iff.mp isField
    have names : ∀ name ∈ (entryFields entry).map Prod.fst, entryKeys.contains name = true := by
      show ∀ name ∈ ["hostname", "site", "_comment", "timezone", "maintenance_window", "ip", "mac",
        "modules", "excluded"], entryKeys.contains name = true
      decide
    exact names written.1 (List.mem_map_of_mem inFields)
  have hostname : OrderedDict.get? id (entryFields entry) "hostname" =
      some (some (.text entry.hostname.text)) := rfl
  have site : OrderedDict.get? id (entryFields entry) "site" =
      some (some (.text entry.site.text)) := rfl
  have comment : OrderedDict.get? id (entryFields entry) "_comment" =
      some (entry.comment.map .text) := rfl
  have noComment : OrderedDict.get? id (entryFields entry) "comment" = none := rfl
  have timezone : OrderedDict.get? id (entryFields entry) "timezone" =
      some (entry.timezone.map .text) := rfl
  have window : OrderedDict.get? id (entryFields entry) "maintenance_window" =
      some (entry.maintenanceWindow.map windowValue) := rfl
  have ip : OrderedDict.get? id (entryFields entry) "ip" = some (entry.ip.map .text) := rfl
  have mac : OrderedDict.get? id (entryFields entry) "mac" = some (entry.mac.map .text) := rfl
  have modules : OrderedDict.get? id (entryFields entry) "modules" =
      some (entry.modules.map fun names => .list (names.map .text)) := rfl
  have excluded : OrderedDict.get? id (entryFields entry) "excluded" =
      some (entry.excluded.map fun reason => .text reason.text) := rfl
  have texts (field : Option String) : optional readText (field.map .text) = some field :=
    @optional_map _ readText Value.text (fun _ => rfl) (by simp) field
  have windows : optional (readWindow coercion) (entry.maintenanceWindow.map windowValue) =
      some entry.maintenanceWindow :=
    optional_map readWindow_windowValue (by simp [windowValue]) _
  have lists : optional readTexts (entry.modules.map fun names => .list (names.map .text)) =
      some entry.modules :=
    optional_map readTexts_list (by simp) _
  have reasons : optional readIdentifier (entry.excluded.map fun reason => .text reason.text) =
      some entry.excluded :=
    optional_map readIdentifier_text (by simp) _
  rw [dumpEntry, validateEntry]
  simp only [known, field_dumpEntry, hostname, site, comment, noComment, timezone, window, ip, mac,
    modules, excluded, Option.bind_some, Option.bind_none, Option.or_none, id_eq,
    readIdentifier_text, texts, windows, lists, reasons]
  simp

/-- What the writer writes the reader reads as the entries it was written from. -/
theorem loadUnitRegistry_dumpUnitRegistry (entries : List UnitEntry) :
    loadUnitRegistry coercion (dumpUnitRegistry entries) = some entries := by
  rw [dumpUnitRegistry, loadUnitRegistry]
  induction entries with
  | nil => rfl
  | cons entry rest ih =>
    rw [List.map_cons, List.mapM_cons, validateEntry_dumpEntry, ih]
    rfl

end RoundTrip

end MastProvisioning.Driver.RegistryFile
