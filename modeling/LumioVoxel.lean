import LumioVoxel.BindingSteps
import LumioVoxel.BlockTables
import LumioVoxel.CanonicalCursor
import LumioVoxel.CanonicalPayloads
import LumioVoxel.CellAddresses
import LumioVoxel.CommitInterleaving
import LumioVoxel.CommitSemantics
import LumioVoxel.DebugText
import LumioVoxel.DeltaValidation
import LumioVoxel.DurabilityFence
import LumioVoxel.LifecycleGate
import LumioVoxel.PhysicsContacts
import LumioVoxel.PinBudgets
import LumioVoxel.PinHandles
import LumioVoxel.PinnedResidency
import LumioVoxel.PreparedCommits
import LumioVoxel.QueryCuts
import LumioVoxel.ReadPathAgreement
import LumioVoxel.ReferenceTables
import LumioVoxel.KeyText
import LumioVoxel.LedgerRuns
import LumioVoxel.ReceiptLineage
import LumioVoxel.RoomModificationLayer
import LumioVoxel.StaleCoverage
import LumioVoxel.StorageHandles
import LumioVoxel.WorldProcess
import LumioVoxel.BulkReadAgreement
import LumioVoxel.RequestFingerprints
import LumioVoxel.RootIdentity
import LumioVoxel.RegionSections
import LumioVoxel.SecureHash
import LumioVoxel.QueryOrder
import LumioVoxel.RevisionHistory
import LumioVoxel.BaselineReads
import LumioVoxel.UndisturbedCommits
import LumioVoxel.PersistedContents
import LumioVoxel.VersionedStores
import LumioVoxel.SessionRefinement
import LumioVoxel.PinBalance
import LumioVoxel.PortRefinement
import LumioVoxel.StateLayouts
import LumioVoxel.JobPorts
import LumioVoxel.WorldEvents
import LumioVoxel.PreimageIdentities
import LumioVoxel.SectionResidency
import LumioVoxel.SnapshotAcceptance
import LumioVoxel.RevisionAllocator
import LumioVoxel.QueryFootprints
import LumioVoxel.RetentionFrontiers
import LumioVoxel.BoxQueries
import LumioVoxel.DeliveryNetwork
import LumioVoxel.BindingHistories
import LumioVoxel.BlockMeanings
import LumioVoxel.CapabilityGates
