import MastProvisioning.Collections.OrderedDict
import MastProvisioning.PowerShell.SettingsFile
import MastProvisioning.PowerShell.Text
import MastProvisioning.Semantics.System

/-!
# The instrument profiles of one unit

Three scripts share a unit's PWI4 settings and its PHD2 profiles: provisioning stages
templates, the first logon applies them, and the calibration binds serial ports once
the instruments are connected. They meet only through what they find on the disk and
in the registry, so a run that is cut off leaves its part to the next one.

A unit keeps beside its files what became of its last registry import. The scripts
never read it; the safety of their runs is stated with it.
-/

namespace MastProvisioning.Unit.InstrumentProfiles

open Collections PowerShell PowerShell.SettingsFile Semantics

/-- The files of one folder; the file system ignores the case of a name. -/
structure Folder where
  files : List (String × Text)
  distinct : OrderedDict.Distinct foldCase files

namespace Folder

def read? (folder : Folder) (name : String) : Option Text :=
  OrderedDict.get? foldCase folder.files name

def write (folder : Folder) (name : String) (text : Text) : Folder where
  files := OrderedDict.set foldCase folder.files name text
  distinct := folder.distinct.set name text

theorem read?_write (folder : Folder) (name other : String) (text : Text) :
    (folder.write name text).read? other =
      if foldCase name = foldCase other then some text else folder.read? other :=
  OrderedDict.get?_set name other text

end Folder

/-- One setting of a PHD2 profile in the registry, or in a `.reg` file. -/
structure RegEntry where
  profile : String
  setting : String
  data : String
  deriving DecidableEq

/-- What became of the registry import a unit saw last. -/
inductive Import
  | never
  | unfinished
  | finished
  deriving DecidableEq

/-- `C:\ProgramData\MAST\instrument-profiles`. -/
structure Staging where
  cfgs : Folder
  reg : Option (List RegEntry)
  applyScript : Bool
  applied : Bool

structure Profiles where
  staging : Staging
  /-- The PWI4 settings of the `mast` user. -/
  live : Folder
  /-- The profiles under the `mast` user's PHD2 key. -/
  phd2 : List RegEntry
  imported : Import

section Provide

/-- The asset bundle of the module. -/
structure Bundle where
  cfgs : Folder
  reg : List RegEntry

/-- The values under `[location]` in the unit's configuration. -/
structure Site where
  latitude : Text
  longitude : Text
  elevation : Text

/-- What a run puts into the staging folder, one file or part of one at a time. -/
inductive StagingWrite
  | cfg (name : String) (text : Text)
  | reg (entries : List RegEntry)
  | applyScript

def Staging.perform (staging : Staging) : StagingWrite → Staging
  | .cfg name text => { staging with cfgs := staging.cfgs.write name text }
  | .reg entries => { staging with reg := some entries }
  | .applyScript => { staging with applyScript := true }

/-- A settings file is written from its beginning; a run cut off leaves part of it. -/
def writeCfg (name : String) (text : Text) : List StagingWrite :=
  text.inits.map (StagingWrite.cfg name)

/-- `Expand-Archive -Force`. -/
def expandArchive (bundle : Bundle) : List StagingWrite :=
  bundle.cfgs.files.flatMap (fun file => writeCfg file.1 file.2) ++
    bundle.reg.inits.map StagingWrite.reg

/-- The texts `PWI4.cfg` has after each of the three fields is set. -/
def siteTexts (site : Site) (text : Text) : List Text :=
  let latitude := setCfgField "Latitude".toList site.latitude text
  let longitude := setCfgField "Longitude".toList site.longitude latitude
  [latitude, longitude, setCfgField "HeightMeters".toList site.elevation longitude]

/-- A run of `provide-instrument-profiles.ps1`; `site` when the configuration has the
three values. Reading a `PWI4.cfg` that is not there ends the run. -/
def provideWrites (staging : Staging) (bundle : Bundle) (site : Option Site) :
    List StagingWrite :=
  let unpacked := (expandArchive bundle).foldl Staging.perform staging
  expandArchive bundle ++
    match site, unpacked.cfgs.read? "PWI4.cfg" with
    | none, _ => [.applyScript]
    | some _, none => []
    | some site, some text =>
      (siteTexts site text).flatMap (writeCfg "PWI4.cfg") ++ [.applyScript]

/-- The writes up to where a run is cut off. -/
def upTo (cut : Option Nat) (writes : List StagingWrite) : List StagingWrite :=
  match cut with
  | none => writes
  | some count => writes.take count

def provide (unit : Profiles) (bundle : Bundle) (site : Option Site) (cut : Option Nat) :
    Profiles :=
  { unit with
    staging := (upTo cut (provideWrites unit.staging bundle site)).foldl Staging.perform unit.staging }

end Provide

section Apply

/-- Where a run of the apply script is cut off. -/
inductive ApplyCut
  /-- After some templates; the next one is there in part when it was begun. -/
  | copying (templates : Nat) (part : Option Nat)
  /-- During the import or by its failure, after some settings. -/
  | importing (entries : Nat)
  /-- After the import, before the sentinel. -/
  | marking
  | never

/-- One round of the loop over the templates: a live file is kept. -/
def copyTemplate (live : Folder) (template : String × Text) : Folder :=
  match live.read? template.1 with
  | some _ => live
  | none => live.write template.1 template.2

def copyTemplates (live : Folder) (templates : List (String × Text)) : Folder :=
  templates.foldl copyTemplate live

/-- The loop, cut off. -/
def copySome (live : Folder) (templates : List (String × Text)) (done : Nat)
    (part : Option Nat) : Folder :=
  let copied := copyTemplates live (templates.take done)
  match templates.drop done, part with
  | template :: _, some characters => copyTemplate copied (template.1, template.2.take characters)
  | _, _ => copied

/-- `reg import`, when the user has no PHD2 profile, up to some number of settings. -/
def importReg (unit : Profiles) (entries : Option Nat) : Profiles :=
  match unit.phd2, unit.staging.reg with
  | [], some reg =>
    let count := entries.getD reg.length
    { unit with
      phd2 := reg.take count
      imported := if count < reg.length then .unfinished else .finished }
  -- Profiles the user has are kept, and a missing file is only warned of.
  | _, _ => unit

def writeSentinel (unit : Profiles) : Profiles :=
  { unit with staging.applied := true }

def copied (unit : Profiles) : Profiles :=
  { unit with live := copyTemplates unit.live unit.staging.cfgs.files }

/-- A run of `apply-instrument-profiles.ps1`. -/
def applyProfiles (unit : Profiles) (cut : ApplyCut) : Profiles :=
  if unit.staging.applied then unit
  else
    match cut with
    | .copying templates part =>
      { unit with live := copySome unit.live unit.staging.cfgs.files templates part }
    | .importing entries => importReg (copied unit) (some entries)
    | .marking => importReg (copied unit) none
    | .never => writeSentinel (importReg (copied unit) none)

end Apply

section Calibrate

/-- One entry of `Win32_PnPEntity`. -/
structure Device where
  id : Text
  name : Text
  deriving DecidableEq

/-- `\((COM\d+)\)` at the start of a text: its group. -/
def comAt : Text → Option Text
  | '(' :: rest =>
    match matchWord "COM".toList rest with
    | some (word, after) =>
      match after.takeWhile Char.isDigit, after.dropWhile Char.isDigit with
      | digit :: digits, ')' :: _ => some (word ++ digit :: digits)
      | _, _ => none
    | none => none
  | _ => none

/-- `Get-Com`. -/
def getCom (device : Device) : Option Text :=
  device.name.tails.findSome? comAt

/-- The devices with a port. -/
def comDevices (devices : List Device) : List Device :=
  devices.filter fun device => (getCom device).isSome

def presentPorts (devices : List Device) : List Text :=
  (comDevices devices).filterMap getCom

def isGeneric (device : Device) : Bool :=
  !contains "VID_1CBE".toList device.id && !startsWith "ACPI".toList device.id &&
    !startsWith "PCI".toList device.id && !contains "com0com".toList device.name

/-- The port of the lone generic adapter. The option `-EfaCom` never reaches this: the
function's own `$efaCom` hides it, since the names of variables ignore case. -/
def efaCom (devices : List Device) : Option Text :=
  match (comDevices devices).filter isGeneric with
  | [device] => getCom device
  | _ => none

def pwbusCom (devices : List Device) : Option Text :=
  ((comDevices devices).find? fun device =>
    contains "VID_1CBE&PID_0002".toList device.id).bind getCom

inductive Action
  | skipNoCfg
  | noDevice
  | alreadyCorrect
  | preservedNeedsForce
  | wouldBind
  deriving DecidableEq

structure TargetPlan where
  cfgFile : String
  desired : Text
  action : Action

def serialPort : Text := "SerialPort".toList

/-- What is to become of a target whose settings file is `text`. -/
def targetAction (text : Option Text) (desired : Option Text) (doForce : Bool)
    (present : List Text) : Action :=
  match text, desired with
  | none, _ => .skipNoCfg
  | some _, none => .noDevice
  | some text, some com =>
    -- No value and an empty one are both false.
    let current := (lastValue serialPort text).getD []
    let curPresent := current ≠ [] && present.any (sameText current)
    if sameText current com then .alreadyCorrect
    else if curPresent && !doForce then .preservedNeedsForce
    else .wouldBind

/-- `Get-TargetPlan`. -/
def getTargetPlan (live : Folder) (cfgFile : String) (desired : Option Text) (doForce : Bool)
    (present : List Text) : TargetPlan where
  cfgFile := cfgFile
  desired := desired.getD []
  action := targetAction (live.read? cfgFile) desired doForce present

def TargetPlan.willWrite (plan : TargetPlan) : Bool :=
  plan.action == .wouldBind

/-- The options of a run of `calibrate-instruments.ps1`, and what it finds. -/
structure Calibration where
  devices : List Device
  force : Bool
  dryRun : Bool
  pwi4Running : Bool

/-- `New-Plan`. -/
def newPlan (live : Folder) (run : Calibration) : List TargetPlan :=
  let present := presentPorts run.devices
  [getTargetPlan live "EFA.Controller_1.cfg" (efaCom run.devices) run.force present,
    getTargetPlan live "PWBus.StandardOTA.Controller.cfg" (pwbusCom run.devices) run.force present]

/-- What one plan does to the settings. -/
def invoke (live : Folder) (plan : TargetPlan) : Folder :=
  match live.read? plan.cfgFile with
  | some text => live.write plan.cfgFile (setCfgField serialPort plan.desired text)
  | none => live

/-- `Invoke-Plan`. -/
def invokePlan (live : Folder) (plans : List TargetPlan) : Folder :=
  (plans.filter TargetPlan.willWrite).foldl invoke live

/-- The run comes to `Invoke-Plan`. -/
def writes (live : Folder) (run : Calibration) : Bool :=
  !run.dryRun && (newPlan live run).any TargetPlan.willWrite && !run.pwi4Running

def calibrate (unit : Profiles) (run : Calibration) : Profiles :=
  if writes unit.live run then { unit with live := invokePlan unit.live (newPlan unit.live run) }
  else unit

end Calibrate

/-- What may happen to a unit's profiles. -/
inductive Event
  | provide (bundle : Bundle) (site : Option Site) (cut : Option Nat)
  | apply (cut : ApplyCut)
  | sentinelLost
  | calibrate (run : Calibration)

def next (unit : Profiles) : Event → Profiles
  | .provide bundle site cut => provide unit bundle site cut
  | .apply cut => applyProfiles unit cut
  | .sentinelLost => { unit with staging.applied := false }
  | .calibrate run => calibrate unit run

/-- The apply script runs from the staging folder; the calibration is run without
`-Force`. -/
def Enabled (unit : Profiles) : Event → Prop
  | .apply _ => unit.staging.applyScript = true
  | .calibrate run => run.force = false
  | _ => True

/-- Where a history begins: any settings and any PHD2 profiles, before a first import.
What was staged, was staged by a run that came to its end. -/
structure Starts (unit : Profiles) : Prop where
  complete : unit.staging.applyScript = true → unit.staging.reg.isSome = true
  neverImported : unit.imported = .never

/-- The unit's profiles, over any history of the three scripts. -/
def profiles : System Profiles Event where
  Initial := Starts
  Enabled := Enabled
  next := next

end MastProvisioning.Unit.InstrumentProfiles
