import AgenticFirewall.Lib.Machine
import AgenticFirewall.Lib.Datetime
import AgenticFirewall.Lib.Dict
import AgenticFirewall.Lib.CanonicalJson
import AgenticFirewall.Lib.Fields
import AgenticFirewall.Lib.Pattern
import AgenticFirewall.Lib.SlidingWindow
import AgenticFirewall.Models.LogLine
import AgenticFirewall.Models.Requests
import AgenticFirewall.Firewall.RateLimiter
import AgenticFirewall.Properties.Cooldown
import AgenticFirewall.Properties.OneProbe
import AgenticFirewall.Firewall.Audit
import AgenticFirewall.Firewall.Authentication
import AgenticFirewall.Firewall.Authorization
import AgenticFirewall.Firewall.Integrity
import AgenticFirewall.Firewall.Risk
import AgenticFirewall.Firewall.Scanner
import AgenticFirewall.Properties.Findings
import AgenticFirewall.Properties.Pinning
import AgenticFirewall.Properties.ScannerVerdict
import AgenticFirewall.Properties.SlidingLimit
import AgenticFirewall.Firewall.Discovery
import AgenticFirewall.Mcp.Client
import AgenticFirewall.Firewall.Segments
import AgenticFirewall.Firewall.Words
import AgenticFirewall.Firewall.Writes
import AgenticFirewall.Lifecycle
import AgenticFirewall.Properties.ApprovalEffect
import AgenticFirewall.Properties.AuditRows
import AgenticFirewall.Properties.AuditTrail
import AgenticFirewall.Properties.Poisoning
import AgenticFirewall.Properties.Refusals
import AgenticFirewall.Properties.UpstreamTrace
import AgenticFirewall.Deployment
import AgenticFirewall.Firewall.Accounts
import AgenticFirewall.Firewall.Approval
import AgenticFirewall.Firewall.BreakerOps
import AgenticFirewall.Firewall.BreakerUse
import AgenticFirewall.Firewall.Passing
import AgenticFirewall.Properties.Entry
import AgenticFirewall.Properties.FailClosed
import AgenticFirewall.Properties.Interference
import AgenticFirewall.Properties.Listing
import AgenticFirewall.Properties.LogLines
import AgenticFirewall.Properties.NeverWedged
import AgenticFirewall.Properties.Obfuscation
import AgenticFirewall.Properties.Reference
import AgenticFirewall.Properties.RetryAfter
import AgenticFirewall.Properties.Revocation
import AgenticFirewall.Properties.RiskOfNames
import AgenticFirewall.Properties.SessionLifecycle
import AgenticFirewall.Properties.Footprint
import AgenticFirewall.Properties.Growth
import AgenticFirewall.Properties.HashedFields
import AgenticFirewall.Properties.KeySpelling
import AgenticFirewall.Properties.LimiterMemory
import AgenticFirewall.Properties.LimiterWait
import AgenticFirewall.Lib.PatternContext
import AgenticFirewall.Mcp.Response
import AgenticFirewall.Mcp.Server
import AgenticFirewall.Properties.Flattening
import AgenticFirewall.Answers
import AgenticFirewall.Lib.Paging
import AgenticFirewall.Mcp.Stdio
import AgenticFirewall.Properties.Paging
import AgenticFirewall.Http
import AgenticFirewall.Handlers
import AgenticFirewall.Properties.Connections
import AgenticFirewall.Properties.RugPull
import AgenticFirewall.Properties.Statuses
import AgenticFirewall.Properties.Budgets
import AgenticFirewall.Properties.CallLog
import AgenticFirewall.Properties.Clearance
import AgenticFirewall.Recording
import AgenticFirewall.Properties.ReadBack
import AgenticFirewall.Properties.ToolIsolation
import AgenticFirewall.Properties.PolicyFiles
import AgenticFirewall.Properties.StdioSession
