import ChunkDispatch.Main
import ChunkDispatch.Proofs.Admission
import ChunkDispatch.Proofs.Boost
import ChunkDispatch.Proofs.Cascade
import ChunkDispatch.Proofs.ChangeLog
import ChunkDispatch.Proofs.Coherence
import ChunkDispatch.Proofs.CompletedCounts
import ChunkDispatch.Proofs.CompletionOrder
import ChunkDispatch.Proofs.Configuration
import ChunkDispatch.Proofs.Consistency
import ChunkDispatch.Proofs.Convergence
import ChunkDispatch.Proofs.Deadlock
import ChunkDispatch.Proofs.Draining
import ChunkDispatch.Proofs.Evolution
import ChunkDispatch.Proofs.Exclusion
import ChunkDispatch.Proofs.FillUp
import ChunkDispatch.Proofs.Handover
import ChunkDispatch.Proofs.Hysteresis
import ChunkDispatch.Proofs.LastHolders
import ChunkDispatch.Proofs.Minimality
import ChunkDispatch.Proofs.Mirror
import ChunkDispatch.Proofs.Partitions
import ChunkDispatch.Proofs.Polynomial
import ChunkDispatch.Proofs.ReadyStream
import ChunkDispatch.Proofs.Rejection
import ChunkDispatch.Proofs.Release
import ChunkDispatch.Proofs.Renewal
import ChunkDispatch.Proofs.Repair
import ChunkDispatch.Proofs.Sharing
import ChunkDispatch.Proofs.Transfer
import ChunkDispatch.Proofs.Vanishing
import ChunkDispatch.Scheduler.Action
import ChunkDispatch.Store.Memory
import ChunkDispatch.Store.Scripted
import ChunkDispatch.Proofs.Inheritance
import ChunkDispatch.Proofs.KeyText
import ChunkDispatch.Proofs.Labels
import ChunkDispatch.Proofs.Survey
import ChunkDispatch.Proofs.TableCounts
