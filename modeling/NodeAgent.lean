import NodeAgent.Main
import NodeAgent.Json.Lookup
import NodeAgent.Listener.Encode
import NodeAgent.Scripted.Authority
import NodeAgent.Scripted.Engine
import NodeAgent.Scripted.Panel
import NodeAgent.Proofs.Registry
import NodeAgent.Proofs.Tags
import NodeAgent.Proofs.Moves
import NodeAgent.Proofs.Limits
import NodeAgent.Proofs.Diff
import NodeAgent.Proofs.Running
import NodeAgent.Proofs.Start
import NodeAgent.Proofs.Revocation
import NodeAgent.Proofs.Convergence
import NodeAgent.Proofs.Stores
import NodeAgent.Proofs.Counters
import NodeAgent.Proofs.Conservation
import NodeAgent.Proofs.Turns
import NodeAgent.Proofs.Records
import NodeAgent.Proofs.Reload
import NodeAgent.Proofs.Residue
import NodeAgent.Proofs.Timetable
import NodeAgent.Proofs.Upkeep
import NodeAgent.Proofs.Enlisting
import NodeAgent.Proofs.Posts
import NodeAgent.Proofs.Launch
import NodeAgent.Proofs.Endpoints
import NodeAgent.Proofs.Rollback
import NodeAgent.Proofs.Authentication
import NodeAgent.Proofs.Detection
import NodeAgent.Proofs.UserCache
import NodeAgent.Proofs.Overlap
import NodeAgent.Proofs.Lock
import NodeAgent.Proofs.Stopping
import NodeAgent.Proofs.Registration
import NodeAgent.Proofs.DeviceCap
import NodeAgent.Proofs.Orphans
import NodeAgent.Proofs.Requests
import NodeAgent.Proofs.Isolation
import NodeAgent.Proofs.Certificates
import NodeAgent.Proofs.Increments
import NodeAgent.Proofs.Attribution
import NodeAgent.Proofs.Discards
import NodeAgent.Proofs.Renewal
import NodeAgent.Proofs.Slices
import NodeAgent.Proofs.Unmapped
import NodeAgent.Proofs.Reporting
import NodeAgent.Proofs.Snapshots
import NodeAgent.Proofs.Pruning
import NodeAgent.Proofs.Headroom
import NodeAgent.Proofs.Speeds
import NodeAgent.Proofs.Totals
import NodeAgent.Proofs.Refusals
import NodeAgent.Proofs.Namesakes
import NodeAgent.Proofs.Refresh
import NodeAgent.Proofs.Issuance
import NodeAgent.Proofs.Assignments
import NodeAgent.Proofs.Grid
import NodeAgent.Proofs.Sharing
