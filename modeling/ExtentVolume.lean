import ExtentVolume.Device.Memory
import ExtentVolume.Main
import ExtentVolume.Proofs.Bitmap
import ExtentVolume.Proofs.BlockCache
import ExtentVolume.Proofs.Codec
import ExtentVolume.Proofs.Extent
import ExtentVolume.Proofs.FileWrite
import ExtentVolume.Proofs.OpenInode
import ExtentVolume.Proofs.Ownership
import ExtentVolume.Proofs.Directory
import ExtentVolume.Proofs.Consistency
import ExtentVolume.Proofs.VolumeStep
import ExtentVolume.Proofs.Operations
import ExtentVolume.Proofs.Requests
import ExtentVolume.Proofs.Device
import ExtentVolume.Proofs.Regions
import ExtentVolume.Proofs.WriteBack
import ExtentVolume.Proofs.View
import ExtentVolume.Proofs.Mounted
import ExtentVolume.Proofs.Format
import ExtentVolume.Proofs.Integrity
import ExtentVolume.Proofs.Isolation
import ExtentVolume.Proofs.Persistence
import ExtentVolume.Proofs.FailedSync
import ExtentVolume.Proofs.ReadBack
import ExtentVolume.Proofs.Slots
import ExtentVolume.Proofs.DirectoryLists
import ExtentVolume.Proofs.LastName
import ExtentVolume.Proofs.Verdict
import ExtentVolume.Proofs.FileLinks
import ExtentVolume.Proofs.Coupled
import ExtentVolume.Proofs.TwinInodes
import ExtentVolume.Proofs.TwinVolumes
import ExtentVolume.Proofs.Erasure
import ExtentVolume.Proofs.Rollback
import ExtentVolume.Proofs.Chain
import ExtentVolume.Proofs.Totality
import ExtentVolume.Proofs.RegionLayout
import ExtentVolume.Proofs.RootFrame
import ExtentVolume.Proofs.MountedRoot
import ExtentVolume.Proofs.StoredRecords
import ExtentVolume.Proofs.Tiling
import ExtentVolume.Proofs.LoadedCounters
import ExtentVolume.Proofs.CorruptImage
import ExtentVolume.Proofs.WriteOutcome
import ExtentVolume.Proofs.Walk
import ExtentVolume.Proofs.Resync
import ExtentVolume.Proofs.Boot
import ExtentVolume.Proofs.Saved
import ExtentVolume.Proofs.SavedSession
import ExtentVolume.Proofs.AddressMap
import ExtentVolume.Proofs.FileRead
import ExtentVolume.Proofs.LeftmostFit
import ExtentVolume.Proofs.FreeSpace
import ExtentVolume.Proofs.Words
import ExtentVolume.Proofs.DirtyBlocks
import ExtentVolume.Proofs.Undo
import ExtentVolume.Proofs.Trail
import ExtentVolume.Proofs.SessionPath
