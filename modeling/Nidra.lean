import Nidra.Features.Compute
import Nidra.Lib.Program
import Nidra.Lib.TtlStore
import Nidra.Training.GraphFeatures
import Nidra.Parity.WindowGraph
import Nidra.Features.State
import Nidra.Features.Worker
import Nidra.Features.OnceOnly
import Nidra.Common.Dispatch
import Nidra.Common.Schemas
import Nidra.Common.Holding
import Nidra.Inference.Worker
import Nidra.Inference.Redelivery
import Nidra.Persister.Episodes
import Nidra.Persister.Ledger
import Nidra.Persister.Redelivery
import Nidra.Ingest.HostileCapture
import Nidra.Ingest.OneReplay
import Nidra.Cli.Forecast
import Nidra.Cli.LeadTimes
import Nidra.Data.Cutoff
import Nidra.Data.Dataset
import Nidra.Evaluation.Calibrate
import Nidra.Evaluation.EvalSet
import Nidra.Evaluation.StrataCover
import Nidra.Model.RiskPooling
import Nidra.Serving.Band
import Nidra.Inference.ContextIntegrity
import Nidra.Features.RetriedClose
import Nidra.Features.CountedOnce
import Nidra.Api.SlidingWindow
import Nidra.Features.Sweeps
import Nidra.Parity.Dynamics
import Nidra.Data.DayTable
import Nidra.Training.Hindsight
import Nidra.Features.AnyOrder
import Nidra.Parity.PeerHistory
import Nidra.Parity.PacketParity
import Nidra.Common.RunConsumer
import Nidra.Flows.Exchange
import Nidra.Model.FreeRunning
import Nidra.Model.InertWhatIf
import Nidra.Api.Check
import Nidra.Persister.Lifecycle
import Nidra.Persister.StateText
import Nidra.Training.HeadContext
import Nidra.Parity.Benchmarked
import Nidra.Parity.LeadTimeScans
import Nidra.Parity.Clustering
import Nidra.Evaluation.Campaigns
import Nidra.Training.Epochs
import Nidra.Data.Hazard
import Nidra.Data.RiskSlices
import Nidra.Data.FeatureScaler
import Nidra.Data.WindowedArrays
import Nidra.Data.HorizonLabels
import Nidra.Inference.ObservedContext
import Nidra.Pipeline.Tenants
import Nidra.Api.Metrics
import Nidra.Api.Uploads
import Nidra.Api.RetryAfter
import Nidra.Api.FanOut
import Nidra.Flows.FlagColumns
import Nidra.Utils.Inheritance
import Nidra.Parity.FlowParity
import Nidra.Api.Auth
import Nidra.Api.Accounts
import Nidra.Api.Sessions
import Nidra.Api.Forecasts
import Nidra.Training.OnsetLoss
import Nidra.Training.Validation
import Nidra.Training.Selection
import Nidra.Training.HeadWeights
import Nidra.Training.HeadSelection
import Nidra.Evaluation.MetricsNatural
import Nidra.Evaluation.OperatingPoint
import Nidra.Ingest.JobResults
import Nidra.Data.CachedSplits
