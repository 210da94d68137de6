import MastProvisioning.Driver.UnitCycle

/-!
# The phases of a unit

`_process_unit` and the helpers it calls, phase by phase. A phase that ends the
cycle logs a row and does not go on; an exception that reaches `_process_unit`
logs the row `FAIL`; the lease is released wherever the phases of an open session
end.
-/

namespace MastProvisioning.Driver

open MastProvisioning.Collections MastProvisioning.PowerShell MastProvisioning.Build
open MastProvisioning.Semantics MastProvisioning.Unit

/-- `_resolve_modules`: the unit's complete module set. -/
def resolveModules (tree : ProviderTree) (declared : Option (List String)) : List String :=
  match declared with
  | some (name :: rest) => name :: rest
  | _ => (tree.order.map Prod.fst).mergeSort fun name other => decide (name ≤ other)

/-- Phase 5 with the full set the driver resolved. -/
def decideTargets (tree : ProviderTree) (options : RunOptions) (modules : List String)
    (installed : Option InstalledManifest) (build : BuildManifest)
    (validation : Option Validation) : Decision :=
  match if options.force then some [] else driftTargets installed build validation with
  | none => .alreadyCurrent
  | some targets =>
    if options.modules = [] then .run targets
    else
      let filtered := filterTargets tree options.modules targets modules
      if filtered = [] then .noRequestedModuleDrift else .run filtered

/-- `in_maintenance_window`. -/
def inMaintenanceWindow (window : Option MaintenanceWindow) (overrideStart overrideEnd hour : Int) :
    Bool :=
  let within (start stop : Int) : Bool :=
    if start ≤ stop then start ≤ hour && hour < stop else start ≤ hour || hour < stop
  if 0 ≤ overrideStart && 0 ≤ overrideEnd then within overrideStart overrideEnd
  else
    match window with
    | none => true
    | some window => within window.startHour window.endHour

/-- The window as the row names it. -/
def windowText (window : Option MaintenanceWindow) (overrideStart overrideEnd : Int) : String :=
  let hour (value : Int) : String :=
    if 0 ≤ value && value < 10 then "0" ++ toString value else toString value
  let text (start stop : Int) : String := hour start ++ ":00-" ++ hour stop ++ ":00"
  if 0 ≤ overrideStart && 0 ≤ overrideEnd then text overrideStart overrideEnd
  else
    match window with
    | none => ""
    | some window => text window.startHour window.endHour

/-- The service a name denotes on the unit. -/
def Machine.service? (machine : Machine) (name : String) : Option Service :=
  machine.services.find? fun service => foldCase service.name = foldCase name

/-- `Remove-One` of the stand-down script. -/
def removeOne (run : StandDownRun) (name : String) (machine : Machine) : Machine :=
  match machine.service? name with
  | none => machine
  | some service =>
    let stopping := if service.running then machine.step (.stopService name) else machine
    if service.running && !run.stops name then stopping
    else
      let others := machine.services.filter fun other => foldCase other.name ≠ foldCase name
      let deleting := stopping.step (.deleteService name)
      if run.deletes name = .removed then { deleting with services := others }
      else { deleting with services := { service with running := false } :: others }

/-- The services the stand-down script goes through, and whether it removes one
only when nssm hosts it. -/
def standDownNames : List (String × Bool) :=
  standDownServices.map (·, false) ++ standDownLegacyServices.map (·, true)

/-- A service the stand-down script does something about. -/
def Machine.standsDown (machine : Machine) (entry : String × Bool) : Bool :=
  match machine.service? entry.1 with
  | none => false
  | some service => !entry.2 || service.nssmHosted

/-- What the stand-down script does on the unit. -/
def standDownScript (run : StandDownRun) (machine : Machine) : Machine :=
  (standDownNames.take run.ran).foldl
    (fun machine entry => if machine.standsDown entry then removeOne run entry.1 machine else machine)
    machine

/-- The services reported as neither absent, removed nor another's, and those not
reported at all. -/
def standDownBad (states : List (String × String)) : List String :=
  (states.filter fun entry => entry.2 ∉ ["absent", "removed", "not-ours"]).map Prod.fst ++
    (standDownNames.map Prod.fst).filter fun name => (OrderedDict.get? id states name).isNone

/-- What the polls leave in `result`. -/
def pollResult : List Poll → Option PollRecord → Option PollRecord
  | [], result => result
  | .raised :: rest, result => pollResult rest result
  | .read value :: rest, _ =>
    match value with
    | some (.record (some "done") exitCode) => some (.record (some "done") exitCode)
    | _ => pollResult rest value

/-- The modules of a smoke check whose marker is missing or empty. -/
def smokeFails (results : List (String × String)) (modules : List String) : List String :=
  modules.filter fun name =>
    (OrderedDict.get? id results name).getD "<missing>" ∈ ["<missing>", "<empty>"]

/-- The reason `_transfer` gives for an outcome other than `OK`. -/
def transferReason (outcome : Option String) : String :=
  match outcome with
  | some "NET_USE_FAIL" => "net_use_failed"
  | some "NET_USE_HUNG" => "net_use_hung"
  | some "PAYLOAD_BYTES_MISSING" => "payload_bytes_missing"
  | some "ROBOCOPY_ERROR" => "robocopy_error"
  | some "DISK_INSUFFICIENT" => "disk_insufficient"
  | _ => "unrecognized_pull_result"

/-- Why a finished pull is not taken for a transfer; `none` when it is. -/
def pullFailure (size : Int × Int) (result : Option PullResult) : Option String :=
  match result with
  | none => some "unrecognized_pull_result"
  | some result =>
    if result.outcome ≠ some "OK" then some (transferReason result.outcome)
    else
      match result.landedBytes, result.landedFiles with
      | some bytes, some files =>
        if !result.completed then some "robocopy_incomplete"
        else if bytes ≠ size.1 ∨ files ≠ size.2 then some "short_transfer"
        else none
      | _, _ => some "unverified_transfer"

section Phases

variable (config : Config) (unit : UnitEntry) (answers : Answers)

/-- `activity`. -/
def logRow (outcome : RowOutcome) (reason payloadHash gitSha : String) : Command Cycle Unit :=
  .update fun cycle =>
    { cycle with record := cycle.record.row ⟨unit.hostname, outcome, reason, payloadHash, gitSha⟩ }

/-- A row of failure, and the exit code that goes with it. -/
def logFailure (outcome : RowOutcome) (reason payloadHash gitSha : String) :
    Command Cycle Unit := do
  logRow unit outcome reason payloadHash gitSha
  .update fun cycle => { cycle with record := cycle.record.failed }

/-- A step on the unit, or past a gate. -/
def takeStep (step : Step) : Command Cycle Unit :=
  .update fun cycle => { cycle with machine := cycle.machine.step step }

/-- `_write_unit_json` of the availability file. -/
def writeAvailability (sent : Sent) (availability : Availability) : Command Cycle Unit := do
  .update fun cycle => { cycle with machine := cycle.machine.sendAvailability sent availability }
  .require sent.returned answers.exception

/-- A write that is reached and comes back or not. -/
def writeOnUnit (path : String) (returned : Bool) : Command Cycle Unit := do
  takeStep (.write path)
  .require returned answers.exception

/-- `_set_unavailable`. -/
def setUnavailable (payloadHash : String) : Command Cycle Unit :=
  writeAvailability answers answers.marking (.provisioning config.runId payloadHash)

/-- `_set_available`. -/
def setAvailable (sent : Sent) : Command Cycle Unit :=
  writeAvailability answers sent .returned

/-- `_release_and_archive`; what is archived is read only. -/
def releaseAndArchive : Command Cycle Unit := do
  let cycle ← .query id
  if cycle.leaseHeld then
    .ignoreErrors (writeAvailability answers answers.release .released)
  else pure ()

/-- `_stand_down`. -/
def standDown : Command Cycle Bool := do
  .update fun cycle => { cycle with machine := standDownScript answers.standDown cycle.machine }
  let reported ← .expect answers.exception answers.standDown.states
  match reported with
  | none =>
    logFailure unit .fail "standdown_failed" "" ""
    pure false
  | some states =>
    if standDownBad states ≠ [] then
      logFailure unit .fail "standdown_failed" "" ""
      pure false
    else pure true

/-- `_build`; `none` when it returns no payload hash. -/
def build : Command Cycle (Option (String × ManifestFile)) :=
  match answers.build with
  | .timedOut => do
    logFailure unit .buildFail "timeout" "" ""
    pure none
  | .exited code manifest =>
    if code ≠ 0 then do
      logFailure unit .buildFail "exception" "" ""
      pure none
    else do
      let file ← .expect answers.exception manifest
      pure (file.payloadHash.map (·, file))

/-- `_sync_to_relay`. -/
def syncToRelay (payloadHash gitSha : String) : Command Cycle Bool :=
  match answers.relaySync with
  | .raised => .exit answers.exception
  | .noManifest => do
    logFailure unit .relaySyncFail "no_manifest" payloadHash gitSha
    pure false
  | .finished ok returncode =>
    if ok then pure true
    else do
      logFailure unit .relaySyncFail ("rc_" ++ toString returncode) payloadHash gitSha
      pure false

/-- `_staging_credential`. -/
def stagingCredential (payloadHash gitSha : String) : Command Cycle Bool :=
  if unit.relayed then do
    let found ← .expect answers.exception answers.credential
    if found then pure true
    else do
      logFailure unit .transferFail "creds_relay_missing" payloadHash gitSha
      pure false
  else pure true

/-- `UNIT_PULL_SCRIPT`. -/
def unitPullScript : String := "C:\\MAST\\mast-pull-staging.ps1"

/-- `UNIT_DETACHED_CFG`. -/
def unitDetachedCfg : String := "C:\\MAST\\status\\detached-run.json"

/-- `UNIT_DETACHED_RUNNER`. -/
def unitDetachedRunner : String := "C:\\MAST\\mast-run-detached.ps1"

/-- `UNIT_SHARED_CFG`. -/
def unitSharedCfg : String := "C:\\MAST\\status\\shared-cred.json"

/-- `UNIT_SHARED_PLAIN`. -/
def unitSharedPlain : String := "C:\\MAST\\status\\shared-cred.tmp"

/-- `UNIT_SHARED_BLOB`. -/
def unitSharedBlob : String := "C:\\MAST\\status\\shared-cred.dpapi"

/-- `_transfer`. -/
def transfer (payloadHash gitSha : String) : Command Cycle Bool := do
  .update fun cycle =>
    { cycle with machine := cycle.machine.step (.transfer cycle.machine.availability) }
  if ← stagingCredential unit answers payloadHash gitSha then
    let size ← .expect answers.exception answers.stagingSize
    writeOnUnit answers unitPullScript answers.pullScript
    match answers.pull with
    | .raised => .exit answers.exception
    | .timedOut =>
      logFailure unit .transferFail "timeout" payloadHash gitSha
      pure false
    | .finished result =>
      match pullFailure size result with
      | some reason =>
        let rc := (result.map (·.rc)).getD "None"
        logFailure unit .transferFail (reason ++ "_rc_" ++ rc) payloadHash gitSha
        pure false
      | none => pure true
  else pure false

/-- `_execute`; the modules handed on do not change its course. -/
def execute (payloadHash gitSha : String) : Command Cycle Bool := do
  .update fun cycle =>
    { cycle with machine := cycle.machine.step (.execute cycle.machine.availability) }
  writeOnUnit answers unitDetachedCfg answers.detachedInputs
  writeOnUnit answers unitSharedCfg answers.sharedUser
  writeOnUnit answers unitSharedPlain answers.sharedPlain
  writeOnUnit answers unitSharedBlob answers.sharedBlob
  writeOnUnit answers unitDetachedRunner answers.detachedRunner
  takeStep .registerTask
  if ← .expect answers.exception answers.register then
    takeStep .deleteTask
    match pollResult answers.polls none with
    | some .misfit => .exit answers.exception
    | some (.record (some "done") exitCode) =>
      let rc ← .expect answers.exception exitCode
      if rc = executeExitLeaseHeld then
        .require answers.leaseRead answers.exception
        logRow unit .skip "lease_held" payloadHash gitSha
        .update fun cycle => { cycle with executeRefused := true }
        pure false
      else if rc ≠ 0 then
        logFailure unit .executeFail ("exit_" ++ toString rc) payloadHash gitSha
        pure false
      else pure true
    | _ =>
      logFailure unit .executeFail "timeout" payloadHash gitSha
      pure false
  else
    logFailure unit .executeFail "detached_register_failed" payloadHash gitSha
    pure false

/-- `_smoke`. -/
def smoke (modules : List String) (payloadHash gitSha : String) : Command Cycle Bool := do
  let results ← .expect answers.exception answers.smoke
  let fails := smokeFails (results.getD []) modules
  if fails ≠ [] then
    logFailure unit .fail ("smoke:" ++ "+".intercalate fails) payloadHash gitSha
    pure false
  else pure true

/-- Phases 8 to 10. -/
def executePhases (executed : List String) (payloadHash gitSha : String) : Command Cycle Unit := do
  .update fun cycle => { cycle with executeRefused := false }
  if ← execute unit answers payloadHash gitSha then
    if ← smoke unit answers executed payloadHash gitSha then
      setAvailable answers answers.returned
      .update fun cycle => { cycle with leaseHeld := false }
      logRow unit .ok "updated" payloadHash gitSha
    else pure ()
  else
    let cycle ← .query id
    if cycle.executeRefused then
      setAvailable answers answers.handedBack
      .update fun cycle => { cycle with leaseHeld := false }
    else pure ()

/-- Phases 6 and 7, and the ones after them. -/
def transferPhases (executed : List String) (payloadHash gitSha : String) : Command Cycle Unit := do
  setUnavailable config answers payloadHash
  .update fun cycle => { cycle with leaseHeld := true }
  if ← transfer unit answers payloadHash gitSha then
    executePhases unit answers executed payloadHash gitSha
  else pure ()

/-- Phase 5c. -/
def syncPhase (payloadHash gitSha : String) : Command Cycle Bool :=
  if unit.relayed then syncToRelay unit answers payloadHash gitSha else pure true

/-- Phases 5b and 5c, and the ones after them. -/
def windowPhases (modules targetModules : List String) (payloadHash gitSha : String) :
    Command Cycle Unit :=
  if inMaintenanceWindow unit.maintenanceWindow config.maintWindowStart config.maintWindowEnd
      answers.hour then do
    takeStep .passedWindow
    .require answers.excludes answers.exception
    if ← syncPhase unit answers payloadHash gitSha then
      transferPhases config unit answers (if targetModules = [] then modules else targetModules)
        payloadHash gitSha
    else pure ()
  else
    logRow unit .skipMaintenance
      ("outside_window current=" ++ answers.current ++ " window=" ++
        windowText unit.maintenanceWindow config.maintWindowStart config.maintWindowEnd)
      payloadHash gitSha

/-- Phase 5, and the ones after it. -/
def decisionPhases (modules : List String) (installed : Option InstalledManifest)
    (validation : Option Validation) (payloadHash : String) (file : ManifestFile) :
    Command Cycle Unit := do
  .update fun cycle => { cycle with payloadHash := payloadHash, gitSha := file.gitSha }
  .require (config.options.force || answers.classifies) answers.exception
  match decideTargets config.tree config.options modules installed file.content validation with
  | .alreadyCurrent => logRow unit .skip "already_current" payloadHash file.gitSha
  | .noRequestedModuleDrift =>
    logRow unit .skip "no_requested_module_drift" payloadHash file.gitSha
  | .run targetModules =>
    if config.dryRun then logRow unit .skip "dry_run" payloadHash file.gitSha
    else
      takeStep .passedDryRun
      windowPhases config unit answers modules targetModules payloadHash file.gitSha

/-- Phases 3 and 4, and the ones after them. -/
def buildPhases (modules : List String) : Command Cycle Unit := do
  let installed ← .expect answers.exception answers.installed
  let validation ← .expect answers.exception answers.validation
  if ← .expect answers.exception answers.smbReach then
    match ← build unit answers with
    | none => pure ()
    | some (payloadHash, file) =>
      decisionPhases config unit answers modules installed validation payloadHash file
  else logFailure unit .preflightFail "unit_smb_unreachable" "" ""

/-- The phases of an open session. -/
def sessionPhases (modules : List String) : Command Cycle Unit := do
  .require answers.reclaims answers.exception
  if ← standDown unit answers then buildPhases config unit answers modules else pure ()

/-- What is inside the `try` of `_process_unit`. -/
def unitPhases (modules : List String) : Command Cycle Unit :=
  if answers.sshOpen || answers.winrmOpen then do
    .require answers.connects answers.exception
    .lastly (sessionPhases config unit answers modules) (releaseAndArchive answers)
  else logFailure unit .unreachable "ssh_and_winrm_ports_closed" "" ""

/-- `_process_unit`. -/
def processUnit : Command Cycle Unit := do
  .update fun cycle =>
    { cycle with
      record := cycle.record.checked
      payloadHash := ""
      gitSha := ""
      leaseHeld := false }
  let modules := resolveModules config.tree unit.modules
  .require (answers.address ≠ .malformed) "UnicodeError"
  .catching (unitPhases config unit answers modules) fun _ => do
    let cycle ← .query id
    logFailure unit .fail ("exception:" ++ answers.exception) cycle.payloadHash cycle.gitSha

end Phases

end MastProvisioning.Driver
