import InsertBench.Desk
import InsertBench.Main
import InsertBench.Bytes.Lemmas
import InsertBench.Latency.Quantile
import InsertBench.Proofs.Bench.Outcome
import InsertBench.Proofs.Bench.Cleanup
import InsertBench.Proofs.Bench.Halting
import InsertBench.Proofs.RowLocks.Replay
import InsertBench.Proofs.RowLocks.Inserting
import InsertBench.Proofs.RowLocks.RollingBack
import InsertBench.Proofs.Workload.KeySpace
import InsertBench.Proofs.Workload.Sizes
import InsertBench.Proofs.Batch.Attempts
import InsertBench.Proofs.Batch.Grammar
import InsertBench.Proofs.Batch.Transcript
import InsertBench.Proofs.Batch.Retrying
import InsertBench.Proofs.Worker.Rounds
import InsertBench.Proofs.Worker.Life
import InsertBench.Proofs.Crew.Alone
import InsertBench.Proofs.Crew.Undisturbed
import InsertBench.Proofs.Contest.Basic
import InsertBench.Proofs.Contest.Exclusive
import InsertBench.Proofs.Serial.Agreement
import InsertBench.Proofs.Row.Layout
import InsertBench.Proofs.Row.Generated
import InsertBench.Proofs.Bench.Raising
import InsertBench.Proofs.Bench.Unfaulted
import InsertBench.Proofs.Bench.Unstarted
import InsertBench.Proofs.Commit.Extending
import InsertBench.Proofs.Commit.LastWins
import InsertBench.Proofs.Program.Status
import InsertBench.Proofs.Store.KeyOrder
import InsertBench.Proofs.Bench.Latencies
