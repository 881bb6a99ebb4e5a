import Federation.Collaborator.Rehearsal
import Federation.Health
import Federation.Main
import Federation.Round.Session
import Federation.Proofs.Round.Failure
import Federation.Proofs.Round.Snapshot
import Federation.Proofs.Fleet.Lockstep
import Federation.Proofs.Fleet.Provenance
import Federation.Proofs.Round.Models
import Federation.Proofs.Round.AsyncRound
import Federation.Proofs.Link.Delivery
import Federation.Proofs.Round.Agreement
import Federation.Proofs.Link.Repetition
import Federation.Proofs.Round.Wakeup
import Federation.Proofs.Round.Blame
import Federation.Proofs.Wire.Routes
import Federation.Proofs.Crowd.Counting
import Federation.Proofs.Security.Scheme
import Federation.Proofs.Publishing.Order
import Federation.Proofs.Round.Dimension
import Federation.Proofs.Round.Membership
import Federation.Proofs.Round.Accounts
import Federation.Proofs.Collaborator.Shutdown
import Federation.Proofs.Collaborator.Rehearsal
import Federation.Proofs.Collaborator.Refresh
import Federation.Proofs.Task.Reserved
import Federation.Proofs.Aggregation.Verdict
import Federation.Proofs.Aggregation.Requests
import Federation.Proofs.Aggregation.Coincidence
import Federation.Proofs.Round.Straggler
import Federation.Proofs.Security.Restart
import Federation.Proofs.Publishing.Whole
import Federation.Proofs.Retry.Protocol
import Federation.Proofs.Collaborator.Privacy
import Federation.Proofs.Aggregation.Divisors
import Federation.Proofs.Round.Spoilt
import Federation.Proofs.Aggregation.Codec
import Federation.Proofs.Plan.PlanPath
import Federation.Proofs.Collaborator.Confinement
import Federation.Proofs.Aggregation.Moments
import Federation.Proofs.Collaborator.Complaint
