import WebHtop.Common.Framing
import WebHtop.Common.Validation
import WebHtop.Common.Models.RoundTrip
import WebHtop.Server.Generations
import WebHtop.Server.Interest
import WebHtop.Server.QueueHistory
import WebHtop.Common.Compatibility
import WebHtop.Common.Json.Reals
import WebHtop.Client.StreamRuns
import WebHtop.Server.Collectors.Rates
import WebHtop.Client.Ui.Render
import WebHtop.Common.Json.Repair
import WebHtop.Common.Json.Truncation
import WebHtop.Server.Collectors.Validity
import WebHtop.Server.Collectors.TopProcesses
import WebHtop.Server.Collectors.CpuTopology
import WebHtop.Server.Collectors.ProcessStat
import WebHtop.Server.SamplingWorker
import WebHtop.Client.ClientApp
import WebHtop.Client.HttpProbe
import WebHtop.Client.Recording
import WebHtop.Server.Http.HttpRequest
import WebHtop.Server.Http.RequestGrammar
import WebHtop.Server.Http.Route
import WebHtop.Server.Fragments
import WebHtop.Common.Json.Agreement
import WebHtop.Client.Freeze
import WebHtop.Server.Collectors.CpuLines
import WebHtop.Tools.Runqlat
import WebHtop.Server.State.SharedState
import WebHtop.Server.Ledger
import WebHtop.Client.ProbeReports
import WebHtop.Client.Convergence
import WebHtop.Client.Backoff
import WebHtop.Server.Collectors.Accepted
import WebHtop.Tools.SchedulerLines
import WebHtop.Client.Ui.ProcessTable
import WebHtop.Server.Config.ServerConfig
import WebHtop.Common.UniqueFd
