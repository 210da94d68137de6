import MastProvisioning.Blobstore.Safety
import MastProvisioning.Blobstore.Archive
import MastProvisioning.Blobstore.TwoClients
import MastProvisioning.Unit.LeaseExclusion
import MastProvisioning.Unit.ChildCommand
import MastProvisioning.Unit.Availability
import MastProvisioning.Driver.PublishedHash
import MastProvisioning.Driver.Classification
import MastProvisioning.Driver.PullReply
import MastProvisioning.Driver.ReceiveLoop
import MastProvisioning.Blobstore.PayloadNames
import MastProvisioning.Blobstore.SourceWindow
import MastProvisioning.Blobstore.AssembleFailure
import MastProvisioning.Driver.Accounting
import MastProvisioning.Driver.AvailabilityProtocol
import MastProvisioning.Driver.GatedChanges
import MastProvisioning.Collections.Aligned
import MastProvisioning.Build.LicenseOwners
import MastProvisioning.Build.CommandFile
import MastProvisioning.Build.ContentHash
import MastProvisioning.Unit.RecordedOutcomes
import MastProvisioning.Tools.VerifyAfterUpdate
import MastProvisioning.Driver.SshCall
import MastProvisioning.Unit.IndexConvergence
import MastProvisioning.Unit.InstrumentState
import MastProvisioning.Tools.ReadersAgree
import MastProvisioning.TreeIntegrity.Pointers
import MastProvisioning.TreeIntegrity.Divergence
import MastProvisioning.Build.ModuleState
import MastProvisioning.Build.TransferSize
import MastProvisioning.Build.LeafFound
import MastProvisioning.Build.BootstrapLayout
import MastProvisioning.Unit.FirmwarePolicy
import MastProvisioning.Unit.SiteAlignment
import MastProvisioning.Unit.Reassert
import MastProvisioning.Unit.ProxySurfaces
import MastProvisioning.Unit.SystemPath
import MastProvisioning.Tools.FetchAssets
import MastProvisioning.Fleet.DriftReport
import MastProvisioning.Fleet.OsBaselines
import MastProvisioning.Fleet.OsDrift
import MastProvisioning.Fleet.RelayRecords
import MastProvisioning.Blobstore.SnapshotIds
import MastProvisioning.Blobstore.Restoring
import MastProvisioning.Blobstore.BootstrapPayload
import MastProvisioning.Driver.EmbeddedValues
import MastProvisioning.Driver.TargetedTransfer
import MastProvisioning.Driver.LogArchive
import MastProvisioning.Driver.Retention
import MastProvisioning.Driver.MacRecording
import MastProvisioning.Tools.DependencyCheck
import MastProvisioning.Driver.MinifiedScript
import MastProvisioning.Fleet.ReportAgreement
import MastProvisioning.Driver.BuildParameters
import MastProvisioning.Driver.FinishedBuild
import MastProvisioning.Driver.TierTwo
