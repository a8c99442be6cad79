import DigStore.Reads
import DigStore.Snapshot
import DigStore.Identity
import DigStore.Attestation
import DigStore.SizeGate
import DigStore.Distinct
import DigStore.SizePartition
import DigStore.Names
import DigStore.Library.Dict
import DigStore.Lockfile
import DigStore.Library.Scan
import DigStore.LockGate
import DigStore.WalkOrder
import DigStore.Library.Stages
import DigStore.Progress
import DigStore.Bound
import DigStore.Library.Journal
import DigStore.Registry
import DigStore.Runs
import DigStore.Capsule
import DigStore.Library.Text
import DigStore.Taxonomy
import DigStore.Settled
import DigStore.LockReport
