import Annealing.Decimal.Shortest
import Annealing.Decimal.Layout
import Annealing.Decimal.Read
import Annealing.Text.Printable
import Annealing.Text.GraphemeExtend
import Annealing.Text.Quoted
import Annealing.Json.Value
import Annealing.Json.Write
import Annealing.Json.Read
import Annealing.Scalar
import Annealing.Strategy
import Annealing.Config
import Annealing.Schedule
import Annealing.Random.Block
import Annealing.Random.Stream
import Annealing.Random.Draw
import Annealing.Random.Shuffle
import Annealing.Acceptance
import Annealing.Adaptive
import Annealing.Register
import Annealing.Restart
import Annealing.Error
import Annealing.Problem
import Annealing.Observer
import Annealing.Worker
import Annealing.Engine
import Annealing.Interleaved
import Annealing.Probe
import Annealing.Session
import Annealing.Problems.Parabola
import Annealing.Problems.Sphere
import Annealing.Problems.Permutation
import Annealing.Problems.Ring
import Annealing.Problems.Counter
import Annealing.Proofs.FloatOrder
import Annealing.Proofs.Binary64.Value
import Annealing.Proofs.Binary64.Rounding
import Annealing.Proofs.Register
import Annealing.Proofs.Linearizable
import Annealing.Proofs.Lockstep
import Annealing.Proofs.Recording
import Annealing.Proofs.Turns
import Annealing.Proofs.Ledger
import Annealing.Proofs.Pool
import Annealing.Proofs.BestEnergy
import Annealing.Proofs.Reproducible
import Annealing.Proofs.Interleaving
import Annealing.Proofs.PendingOffers
import Annealing.Proofs.InterleavedRuns
import Annealing.Proofs.Audit
import Annealing.Proofs.Calls
import Annealing.Proofs.Iterations
import Annealing.Proofs.Life
import Annealing.Proofs.Restarts
import Annealing.Proofs.WalkLaws
import Annealing.Proofs.Outcomes
import Annealing.Proofs.Exclusion
import Annealing.Proofs.Window
import Annealing.Proofs.RunningProduct
import Annealing.Proofs.Cooling
import Annealing.Proofs.LoneWorker
import Annealing.Proofs.Binary64.Operations
import Annealing.Proofs.Binary64.Extended
import Annealing.Proofs.Binary64.Monotone
import Annealing.Proofs.ControllerRange
import Annealing.Proofs.Metropolis
import Annealing.Proofs.Schedules
import Annealing.Proofs.Validation
