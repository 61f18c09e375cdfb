import ReplicatedStore.Cluster.Basic
import ReplicatedStore.Cluster.Control
import ReplicatedStore.Cluster.Delivery
import ReplicatedStore.Cluster.Report
import ReplicatedStore.Cluster.Service
import ReplicatedStore.Cluster.Tasks
import ReplicatedStore.Cluster.Time
import ReplicatedStore.Command
import ReplicatedStore.CommandLine.Invocation
import ReplicatedStore.CommandLine.Options
import ReplicatedStore.CommandLine.Run
import ReplicatedStore.Error
import ReplicatedStore.Host.Folder
import ReplicatedStore.Host.LiveNode
import ReplicatedStore.Host.Socket
import ReplicatedStore.Image
import ReplicatedStore.Json.Basic
import ReplicatedStore.Json.Reader
import ReplicatedStore.Json.Record
import ReplicatedStore.Json.Writer
import ReplicatedStore.Link.Exchange
import ReplicatedStore.Link.Loopback
import ReplicatedStore.Link.Peers
import ReplicatedStore.Machine
import ReplicatedStore.Main
import ReplicatedStore.Member.Applying
import ReplicatedStore.Member.Basic
import ReplicatedStore.Member.Campaign
import ReplicatedStore.Member.Majority
import ReplicatedStore.Member.Recovery
import ReplicatedStore.Member.Replication
import ReplicatedStore.Member.Requests
import ReplicatedStore.Message
import ReplicatedStore.Network.Basic
import ReplicatedStore.Network.Receiver
import ReplicatedStore.Proofs.Acknowledgements
import ReplicatedStore.Proofs.AppliedBatches
import ReplicatedStore.Proofs.BackedMembers
import ReplicatedStore.Proofs.Books
import ReplicatedStore.Proofs.Calendar
import ReplicatedStore.Proofs.Calls
import ReplicatedStore.Proofs.CatchingUp
import ReplicatedStore.Proofs.CheckedArithmetic
import ReplicatedStore.Proofs.Chronicle
import ReplicatedStore.Proofs.ChronicleSteps
import ReplicatedStore.Proofs.ClientCommands
import ReplicatedStore.Proofs.Compacting
import ReplicatedStore.Proofs.Cursors
import ReplicatedStore.Proofs.DurableLogs
import ReplicatedStore.Proofs.ElectionSafety
import ReplicatedStore.Proofs.Endurance
import ReplicatedStore.Proofs.EnduranceSteps
import ReplicatedStore.Proofs.EnduringRuns
import ReplicatedStore.Proofs.Executing
import ReplicatedStore.Proofs.Faltering
import ReplicatedStore.Proofs.FalteringRestarts
import ReplicatedStore.Proofs.FalteringSections
import ReplicatedStore.Proofs.FileFidelity
import ReplicatedStore.Proofs.HaleMembers
import ReplicatedStore.Proofs.HaltingRuns
import ReplicatedStore.Proofs.Histories
import ReplicatedStore.Proofs.Holdings
import ReplicatedStore.Proofs.ImageOrReplay
import ReplicatedStore.Proofs.Images
import ReplicatedStore.Proofs.Instants
import ReplicatedStore.Proofs.Isolation
import ReplicatedStore.Proofs.JsonReading
import ReplicatedStore.Proofs.JsonStrings
import ReplicatedStore.Proofs.JsonWriting
import ReplicatedStore.Proofs.LateAnswers
import ReplicatedStore.Proofs.Leading
import ReplicatedStore.Proofs.Lifetimes
import ReplicatedStore.Proofs.LogFiles
import ReplicatedStore.Proofs.LogMatching
import ReplicatedStore.Proofs.MajorityBarrier
import ReplicatedStore.Proofs.MemberSections
import ReplicatedStore.Proofs.Merging
import ReplicatedStore.Proofs.PeerLists
import ReplicatedStore.Proofs.Posts
import ReplicatedStore.Proofs.QuorumRule
import ReplicatedStore.Proofs.Quorums
import ReplicatedStore.Proofs.RecordSteps
import ReplicatedStore.Proofs.RecordedRuns
import ReplicatedStore.Proofs.Records
import ReplicatedStore.Proofs.Recovering
import ReplicatedStore.Proofs.Redirects
import ReplicatedStore.Proofs.Refusals
import ReplicatedStore.Proofs.ReplicaLogs
import ReplicatedStore.Proofs.ReplicaRuns
import ReplicatedStore.Proofs.ReplyPairing
import ReplicatedStore.Proofs.RequestedLogs
import ReplicatedStore.Proofs.RestartEquivalence
import ReplicatedStore.Proofs.Restarts
import ReplicatedStore.Proofs.Roles
import ReplicatedStore.Proofs.SectionEnds
import ReplicatedStore.Proofs.Sections
import ReplicatedStore.Proofs.Sites
import ReplicatedStore.Proofs.SnapshotCrashes
import ReplicatedStore.Proofs.Sources
import ReplicatedStore.Proofs.Splices
import ReplicatedStore.Proofs.Standing
import ReplicatedStore.Proofs.StateMachineSafety
import ReplicatedStore.Proofs.Steady
import ReplicatedStore.Proofs.SteadySections
import ReplicatedStore.Proofs.StoredImages
import ReplicatedStore.Proofs.TextPieces
import ReplicatedStore.Proofs.TornWrites
import ReplicatedStore.Proofs.Waiters
import ReplicatedStore.Proofs.Windows
import ReplicatedStore.Proofs.WireForms
import ReplicatedStore.Proofs.World
import ReplicatedStore.Proofs.WrittenForms
import ReplicatedStore.Replica.Basic
import ReplicatedStore.Replica.Compaction
import ReplicatedStore.Replica.Election
import ReplicatedStore.Replica.Follower
import ReplicatedStore.Replica.Leader
import ReplicatedStore.Settings.Address
import ReplicatedStore.Settings.Consensus
import ReplicatedStore.Settings.Node
import ReplicatedStore.Settings.Peers
import ReplicatedStore.Storage.Directory
import ReplicatedStore.Storage.Disk
import ReplicatedStore.Storage.EitherDisk
import ReplicatedStore.Storage.FileDisk
import ReplicatedStore.Storage.Journal
import ReplicatedStore.Storage.LogFile
import ReplicatedStore.Storage.Metadata
import ReplicatedStore.Table
import ReplicatedStore.Text.Blank
import ReplicatedStore.Text.Decimal
import ReplicatedStore.Text.Quoted
import ReplicatedStore.Text.Split
import ReplicatedStore.Text.Unprintable
import ReplicatedStore.Time.Calendar
import ReplicatedStore.Time.Instant
import ReplicatedStore.Wire.Command
import ReplicatedStore.Wire.Frame
import ReplicatedStore.Wire.Framing
import ReplicatedStore.Wire.Image
import ReplicatedStore.Wire.Message
import ReplicatedStore.Wire.Shape
import ReplicatedStore.Wire.Status
import ReplicatedStore.Word
