import KeyFob.Bench.Rig
import KeyFob.Clock
import KeyFob.Main
import KeyFob.Panic
import KeyFob.Proofs.Card.Reading
import KeyFob.Proofs.Session.Confirmation
import KeyFob.Proofs.Session.Debt
import KeyFob.Proofs.Connectivity.Rotation
import KeyFob.Proofs.Journal.Reading
import KeyFob.Proofs.Journal.Vault
import KeyFob.Proofs.Session.Vault
import KeyFob.Proofs.Token.Following
import KeyFob.Proofs.Session.Breaks
import KeyFob.Proofs.Session.Digests
import KeyFob.Proofs.Journal.Effects
import KeyFob.Proofs.Journal.Leads
import KeyFob.Proofs.Token.Storing
import KeyFob.Proofs.Provisioning.Secrets
import KeyFob.Proofs.Provisioning.Contest
import KeyFob.Proofs.Connectivity.Agreement
import KeyFob.Proofs.Storage.Reliable
import KeyFob.Proofs.Token.Reloading
import KeyFob.Proofs.Provisioning.Ends
import KeyFob.Proofs.Provisioning.Passage
import KeyFob.Proofs.Token.Comparing
import KeyFob.Proofs.Token.Restoring
import KeyFob.Proofs.Token.Resuming
import KeyFob.Proofs.Token.Retries
import KeyFob.Proofs.Token.Chaining
import KeyFob.Proofs.Session.Connections
import KeyFob.Proofs.Session.Dialing
import KeyFob.Proofs.Session.Running
import KeyFob.Proofs.Session.Bookkeeping
import KeyFob.Proofs.LinkQueue
import KeyFob.Proofs.Signals.Waking
import KeyFob.Proofs.Restart.Race
import KeyFob.Proofs.Restart.Pending
import KeyFob.Proofs.Session.Halting
import KeyFob.Proofs.Tasks.Ending
import KeyFob.Proofs.Tasks.Finishing
import KeyFob.Proofs.Tasks.Course
import KeyFob.Proofs.Config.Packing
import KeyFob.Proofs.Storage.Files
import KeyFob.Proofs.Config.Keeping
import KeyFob.Proofs.RestartLog.History
import KeyFob.Proofs.RestartLog.Order
import KeyFob.Proofs.Connectivity.Collapse
import KeyFob.Proofs.Gate.Deadline
import KeyFob.Proofs.Gate.Timing
import KeyFob.Proofs.Provisioning.Presence
import KeyFob.Proofs.Config.Usable
import KeyFob.Proofs.Storage.Histories
import KeyFob.Proofs.Provisioning.Monitoring
import KeyFob.Proofs.Connectivity.Draining
import KeyFob.Proofs.Token.Answering
import KeyFob.Proofs.Indicator
import KeyFob.Proofs.Session.Lamps
import KeyFob.Proofs.Card.Editing
import KeyFob.Proofs.Config.Rules
import KeyFob.Proofs.Config.Faults
