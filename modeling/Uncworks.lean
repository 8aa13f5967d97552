import Uncworks.Controller.Bridge
import Uncworks.Lifecycle.Compensation
import Uncworks.Lifecycle.Juniors
import Uncworks.Lifecycle.Planning
import Uncworks.Lifecycle.Questions
import Uncworks.Lifecycle.Verification
import Uncworks.Server.Reads
import Uncworks.Controller.Archive
import Uncworks.Controller.ChainErrors
import Uncworks.Controller.ScheduleTimes
import Uncworks.Hydration.Token
import Uncworks.Server.FixLimits
import Uncworks.Server.Watch
import Uncworks.Server.Webhook
import Uncworks.Sidecar.Succession
import Uncworks.Sidecar.Usage
import Uncworks.Hydration.Worktrees
import Uncworks.Knowledge.Persist
import Uncworks.Lifecycle.Vigil
import Uncworks.Server.Templates
import Uncworks.Sidecar.Streams
import Uncworks.Bff.RateLimit
import Uncworks.Bff.Sessions
import Uncworks.Knowledge.Context
import Uncworks.Server.AgentLog
import Uncworks.Server.Files
import Uncworks.Server.Tags
import Uncworks.Gate.Check
import Uncworks.Gate.Impact
import Uncworks.Knowledge.Chunks
import Uncworks.Server.ClientIp
import Uncworks.Citelock.Cited
import Uncworks.Citelock.Fetch
import Uncworks.Lifecycle.Retries
import Uncworks.Specs.Ready
import Uncworks.Lifecycle.Readings
import Uncworks.Sidecar.Checkpoints
import Uncworks.Sidecar.Readers
import Uncworks.Shared.ReconnectingStream
