import DigitalObjects.Pod2.Terms
import DigitalObjects.Txlib.Finalized
import DigitalObjects.Txlib.Finalize
import DigitalObjects.Synchronizer.Finality
import DigitalObjects.Synchronizer.Payloads
import DigitalObjects.Synchronizer.Blobs
import DigitalObjects.Archiver.Blobs
import DigitalObjects.Driver.Terminal
import DigitalObjects.Driver.Submission
import DigitalObjects.Driver.Exclusion
import DigitalObjects.Sdk.Guard
import DigitalObjects.Sdk.Apply
import DigitalObjects.Sdk.Shape
import DigitalObjects.Sdk.Outputs
import DigitalObjects.Synchronizer.CreatedIndex
import DigitalObjects.Synchronizer.Convergence
import DigitalObjects.Driver.CrashSafety
import DigitalObjects.Synchronizer.Derivation
import DigitalObjects.Synchronizer.Window
import DigitalObjects.Wire.Payload
import DigitalObjects.Synchronizer.FailSoft
import DigitalObjects.Txlib.Size
import DigitalObjects.Driver.Publish
import DigitalObjects.Lib.Dialogue
import DigitalObjects.Relayer.Db
import DigitalObjects.Relayer.Worker
import DigitalObjects.Relayer.Api
import DigitalObjects.Relayer.Mined
import DigitalObjects.Synchronizer.ReadApi
import DigitalObjects.Driver.Recording
import DigitalObjects.Dobjd.Events
import DigitalObjects.Dobjd.Convergence
import DigitalObjects.Lib.FileTree
import DigitalObjects.Archiver.Follow
import DigitalObjects.IntroPods.LtEqU256
import DigitalObjects.Txlib.Grounding
import DigitalObjects.Sdk.Mining
import DigitalObjects.Relayer.Pacing
import DigitalObjects.Driver.Membership
import DigitalObjects.Lib.Greedy
import DigitalObjects.Driver.Feasibility
import DigitalObjects.IntroPods.VdfPod
import DigitalObjects.Driver.FileNames
import DigitalObjects.Driver.NameOwnership
import DigitalObjects.Wire.SimpleBlob
import DigitalObjects.Driver.CreationProof
import DigitalObjects.Dobjd.Announcements
import DigitalObjects.Dobjd.Retries
import DigitalObjects.Dobjd.Waiters
import DigitalObjects.Lib.Directory
import DigitalObjects.Driver.PluginInstall
import DigitalObjects.Synchronizer.SinglePayload
import DigitalObjects.Driver.MockDon
import DigitalObjects.Driver.MockDonAgreement
import DigitalObjects.Archiver.Processing
import DigitalObjects.Archiver.Runs
import DigitalObjects.Synchronizer.ArchivedBlobs
import DigitalObjects.Driver.ChainRefinement
import DigitalObjects.Driver.Witnesses
import DigitalObjects.Driver.MockDonReads
import DigitalObjects.Dobjd.RunStream
