import ExternalStorage.Library.Runs
import ExternalStorage.Library.Table
import ExternalStorage.Library.Loops
import ExternalStorage.Library.Paging
import ExternalStorage.Library.Sorting
import ExternalStorage.Library.Cursors
import ExternalStorage.Library.Batches
import ExternalStorage.Library.Locks
import ExternalStorage.Library.Trees
import ExternalStorage.Library.Json
import ExternalStorage.Library.Codes
import ExternalStorage.Library.Doubles
import ExternalStorage.Library.JsonTrees
import ExternalStorage.Library.Texts
import ExternalStorage.Library.FirstSeen
import ExternalStorage.Library.Exclusion
import ExternalStorage.Library.Resolution
import ExternalStorage.Library.FixedWindows
import ExternalStorage.Library.ObjectStores
import ExternalStorage.Model.Errors
import ExternalStorage.Model.Tables
import ExternalStorage.Model.Keys
import ExternalStorage.Model.ObjectKeys
import ExternalStorage.Model.Snapshots
import ExternalStorage.Model.Retention
import ExternalStorage.Model.Paths
import ExternalStorage.Model.Scan
import ExternalStorage.Model.Manifests
import ExternalStorage.Model.Staging
import ExternalStorage.Model.Publication
import ExternalStorage.Model.Jobs
import ExternalStorage.Model.Leases
import ExternalStorage.Model.Backoff
import ExternalStorage.Model.Catalog
import ExternalStorage.Model.Usage
import ExternalStorage.Model.Problems
import ExternalStorage.Model.Scheduling
import ExternalStorage.Model.Backfill
import ExternalStorage.Model.Collector
import ExternalStorage.Model.Worker
import ExternalStorage.Model.Restores
import ExternalStorage.Model.Sync
import ExternalStorage.Model.Lists
import ExternalStorage.Model.Locking
import ExternalStorage.Model.Reconciliation
import ExternalStorage.Model.ReconcileLoops
import ExternalStorage.Model.Dashboard
import ExternalStorage.Model.Fingerprints
import ExternalStorage.Model.DirtyVersions
import ExternalStorage.Snapshot.Matching
import ExternalStorage.Snapshot.ObjectKeys
import ExternalStorage.Snapshot.StoredKeys
import ExternalStorage.Snapshot.Machine
import ExternalStorage.Snapshot.Steps
import ExternalStorage.Snapshot.Lifecycle
import ExternalStorage.Snapshot.Supersession
import ExternalStorage.Snapshot.Consistency
import ExternalStorage.Snapshot.Frames
import ExternalStorage.Snapshot.Immutability
import ExternalStorage.Snapshot.Collection
import ExternalStorage.Snapshot.Durability
import ExternalStorage.Snapshot.Completions
import ExternalStorage.Snapshot.Marks
import ExternalStorage.Snapshot.Leaks
import ExternalStorage.Snapshot.Deadlocks
import ExternalStorage.Snapshot.Generations
import ExternalStorage.Snapshot.Healing
import ExternalStorage.Snapshot.Projection
import ExternalStorage.Jobs.Fencing
import ExternalStorage.Jobs.Queue
import ExternalStorage.Jobs.Leases
import ExternalStorage.Jobs.LostLeases
import ExternalStorage.Jobs.Backfills
import ExternalStorage.Jobs.Payloads
import ExternalStorage.Jobs.Backoff
import ExternalStorage.Jobs.ErrorCodes
import ExternalStorage.Jobs.Coalescing
import ExternalStorage.Jobs.Creation
import ExternalStorage.Jobs.Scheduling
import ExternalStorage.Jobs.Turns
import ExternalStorage.Jobs.Isolation
import ExternalStorage.Jobs.Progress
import ExternalStorage.Jobs.Rounds
import ExternalStorage.Jobs.Attempts
import ExternalStorage.Jobs.Retention
import ExternalStorage.Jobs.PausedQueue
import ExternalStorage.Jobs.Revocation
import ExternalStorage.Jobs.DirtyVersions
import ExternalStorage.Catalog.Upserts
import ExternalStorage.Catalog.Claims
import ExternalStorage.Catalog.Discovery
import ExternalStorage.Catalog.MirrorOrder
import ExternalStorage.Catalog.Reconcile
import ExternalStorage.Catalog.Backups
import ExternalStorage.Catalog.Accounting
import ExternalStorage.Catalog.BadFolders
import ExternalStorage.Sync.Reading
import ExternalStorage.Sync.Statements
import ExternalStorage.Sync.Writes
import ExternalStorage.Sync.Delivery
import ExternalStorage.Catalog.Notifications
import ExternalStorage.Catalog.TreeFingerprints
import ExternalStorage.Catalog.Fingerprints
import ExternalStorage.Catalog.Plans
import ExternalStorage.Restore.Scanning
import ExternalStorage.Restore.Symlinks
import ExternalStorage.Restore.Takeovers
import ExternalStorage.Restore.Validation
import ExternalStorage.Restore.Restorability
import ExternalStorage.Restore.Totals
import ExternalStorage.Restore.WalkOrder
import ExternalStorage.Restore.Claims
import ExternalStorage.Restore.Episodes
import ExternalStorage.Restore.Materialising
import ExternalStorage.Restore.RoundTrip
import ExternalStorage.Restore.Evictions
import ExternalStorage.Restore.Durability
import ExternalStorage.Restore.Downloads
import ExternalStorage.Publication.Folders
import ExternalStorage.Publication.Machine
import ExternalStorage.Publication.Moves
import ExternalStorage.Publication.Fencing
import ExternalStorage.Publication.EnsureReady
import ExternalStorage.Publication.Readiness
import ExternalStorage.Publication.Listings
import ExternalStorage.Publication.Failures
import ExternalStorage.Publication.Recorded
import ExternalStorage.Publication.Removals
import ExternalStorage.Watcher.Processing
import ExternalStorage.Watcher.DirtyFlag
import ExternalStorage.Watcher.Debounce
import ExternalStorage.Watcher.Clears
import ExternalStorage.Dashboard.Sessions
import ExternalStorage.Dashboard.Administrators
import ExternalStorage.Dashboard.Histories
import ExternalStorage.Dashboard.ProblemPages
import ExternalStorage.Dashboard.LiveListings
import ExternalStorage.Dashboard.Totals
import ExternalStorage.Dashboard.Authorization
import ExternalStorage.Snapshot.Undisturbed
import ExternalStorage.Snapshot.StableHash
import ExternalStorage.Service.Migrations
import ExternalStorage.Service.LoginLimit
import ExternalStorage.Objects.Refinement
import ExternalStorage.Restore.Lossless
