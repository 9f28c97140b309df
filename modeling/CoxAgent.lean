import CoxAgent.Approval.Theorems.Gate
import CoxAgent.Audit.Theorems.Honest
import CoxAgent.Auth.Theorems.Membership
import CoxAgent.Auth.Theorems.RateLimit
import CoxAgent.Auth.Theorems.Sessions
import CoxAgent.Auth.Theorems.Totp
import CoxAgent.Backlog.Theorems.Dependencies
import CoxAgent.Backlog.Theorems.Duplicates
import CoxAgent.Backlog.Theorems.Ids
import CoxAgent.Backlog.Theorems.Parsing
import CoxAgent.Backlog.Theorems.Radar
import CoxAgent.Backlog.Theorems.Recognised
import CoxAgent.Backlog.Theorems.Rejected
import CoxAgent.Backlog.Theorems.Split
import CoxAgent.Backup.Theorems.RoundTrip
import CoxAgent.Backup.Theorems.Seal
import CoxAgent.Chat.Theorems.Channels
import CoxAgent.Coverage.Theorems.Levenshtein
import CoxAgent.Coverage.Theorems.Record
import CoxAgent.Cycle.Theorems.ErrorReport
import CoxAgent.Cycle.Theorems.Gates
import CoxAgent.Cycle.Theorems.Hygiene
import CoxAgent.Cycle.Theorems.Incident
import CoxAgent.Cycle.Theorems.Leader
import CoxAgent.Cycle.Theorems.QueueRecovery
import CoxAgent.Cycle.Theorems.Reverts
import CoxAgent.Cycle.Theorems.Runner
import CoxAgent.Cycle.Theorems.ShipTruth
import CoxAgent.Cycle.Theorems.Sweep
import CoxAgent.Cycle.Theorems.Wip
import CoxAgent.Domain.Theorems.Authority
import CoxAgent.Domain.Theorems.Repeat
import CoxAgent.Domain.Theorems.Verified
import CoxAgent.Engine.Theorems.Reply
import CoxAgent.Engine.Theorems.Tools
import CoxAgent.Forge.Theorems.BlastRadius
import CoxAgent.Forge.Theorems.Competing
import CoxAgent.Forge.Theorems.Dangling
import CoxAgent.Forge.Theorems.Deadline
import CoxAgent.Forge.Theorems.Expiry
import CoxAgent.Forge.Theorems.Holds
import CoxAgent.Forge.Theorems.Landed
import CoxAgent.Forge.Theorems.Pairing
import CoxAgent.Forge.Theorems.Sweep
import CoxAgent.Json.Theorems.AtomicWrite
import CoxAgent.Json.Theorems.Backups
import CoxAgent.MergeLock.Theorems.Exclusion
import CoxAgent.Operators.Theorems.WorkingHours
import CoxAgent.Ops.Theorems.KnownGood
import CoxAgent.Ops.Theorems.Outage
import CoxAgent.Outbox.Theorems.Delivery
import CoxAgent.Outbox.Theorems.Progress
import CoxAgent.Outbox.Theorems.Serial
import CoxAgent.Questions.Theorems.Batching
import CoxAgent.Questions.Theorems.Log
import CoxAgent.Recovery.Theorems.Fleet
import CoxAgent.Recovery.Theorems.Handback
import CoxAgent.Release.Theorems.Bump
import CoxAgent.Release.Theorems.Candidate
import CoxAgent.Release.Theorems.Push
import CoxAgent.Release.Theorems.Released
import CoxAgent.Sprint.Theorems.Bookkeeping
import CoxAgent.Sprint.Theorems.Candidates
import CoxAgent.Sprint.Theorems.Lanes
import CoxAgent.Sprint.Theorems.Milestones
import CoxAgent.Sprint.Theorems.TopUp
import CoxAgent.State.Shards
import CoxAgent.Store.Theorems.Columns
import CoxAgent.Store.Theorems.MutateShard
import CoxAgent.Store.Theorems.Sql
