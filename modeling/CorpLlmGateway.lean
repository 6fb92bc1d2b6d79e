import CorpLlmGateway.Audit.Invariants
import CorpLlmGateway.Concurrency.Machine
import CorpLlmGateway.Concurrency.Tasks
import CorpLlmGateway.CorpNer.Batches
import CorpLlmGateway.Data.Bisect
import CorpLlmGateway.Data.Dict
import CorpLlmGateway.Data.Framing
import CorpLlmGateway.Data.Intervals
import CorpLlmGateway.Data.PrefixCode
import CorpLlmGateway.Data.Results
import CorpLlmGateway.Data.Search
import CorpLlmGateway.Data.Selection
import CorpLlmGateway.Data.Table
import CorpLlmGateway.Detectors.CardScan
import CorpLlmGateway.Detectors.DualNer
import CorpLlmGateway.Detectors.Finding
import CorpLlmGateway.Detectors.NfcOffsets
import CorpLlmGateway.Detectors.RegexChecksum
import CorpLlmGateway.Hash.Sha256
import CorpLlmGateway.Json.Codec
import CorpLlmGateway.Json.Grammar
import CorpLlmGateway.Json.Reading
import CorpLlmGateway.Json.Strings
import CorpLlmGateway.Json.Token
import CorpLlmGateway.Json.Value
import CorpLlmGateway.LitellmHook.AuditDedup
import CorpLlmGateway.LitellmHook.AuthHeaders
import CorpLlmGateway.Profiles.Extends
import CorpLlmGateway.Profiles.Integrity
import CorpLlmGateway.Profiles.OracleMode
import CorpLlmGateway.RouteGate.Accounting
import CorpLlmGateway.RouteGate.BodyProblem
import CorpLlmGateway.RouteGate.Classify
import CorpLlmGateway.RouteGate.DataLines
import CorpLlmGateway.RouteGate.Inflight
import CorpLlmGateway.RouteGate.Mappings
import CorpLlmGateway.RouteGate.Response
import CorpLlmGateway.RouteGate.SseRestorer
import CorpLlmGateway.RouteGate.Table
import CorpLlmGateway.RouteGate.TerminalAudit
import CorpLlmGateway.RouteGate.UsageTap
import CorpLlmGateway.Rules.Models
import CorpLlmGateway.Rules.Parser
import CorpLlmGateway.Sanitizer.BlockEvents
import CorpLlmGateway.Sanitizer.BlockStream
import CorpLlmGateway.Sanitizer.CacheA
import CorpLlmGateway.Sanitizer.ChatChoice
import CorpLlmGateway.Sanitizer.ChatLanes
import CorpLlmGateway.Sanitizer.ContentBlocks
import CorpLlmGateway.Sanitizer.ContentCollect
import CorpLlmGateway.Sanitizer.ContentCoverage
import CorpLlmGateway.Sanitizer.ContentHash
import CorpLlmGateway.Sanitizer.ContentInverse
import CorpLlmGateway.Sanitizer.ContentWalk
import CorpLlmGateway.Sanitizer.Layers
import CorpLlmGateway.Sanitizer.Leak
import CorpLlmGateway.Sanitizer.LocalPass
import CorpLlmGateway.Sanitizer.Merge
import CorpLlmGateway.Sanitizer.MessageWalk
import CorpLlmGateway.Sanitizer.Orchestrator
import CorpLlmGateway.Sanitizer.Placeholder
import CorpLlmGateway.Sanitizer.PlaceholderAllocator
import CorpLlmGateway.Sanitizer.Plan
import CorpLlmGateway.Sanitizer.PolicyFingerprint
import CorpLlmGateway.Sanitizer.ResponseAliases
import CorpLlmGateway.Sanitizer.ResponsesOrder
import CorpLlmGateway.Sanitizer.ResponsesStream
import CorpLlmGateway.Sanitizer.Restoration
import CorpLlmGateway.Sanitizer.RoundTrip
import CorpLlmGateway.Sanitizer.Secrets
import CorpLlmGateway.Sanitizer.Segmenter
import CorpLlmGateway.Sanitizer.Spans
import CorpLlmGateway.Sanitizer.Sse
import CorpLlmGateway.Sanitizer.SseClient
import CorpLlmGateway.Sanitizer.SseEvents
import CorpLlmGateway.Sanitizer.SseStream
import CorpLlmGateway.Sanitizer.SseTotal
import CorpLlmGateway.Sanitizer.Stability
import CorpLlmGateway.Sanitizer.Strategies
import CorpLlmGateway.Sanitizer.Streaming
import CorpLlmGateway.Storage.InMemory
import CorpLlmGateway.Storage.RedisStore
import CorpLlmGateway.Text.FirstMatch
import CorpLlmGateway.Text.Literal
import CorpLlmGateway.Text.Lines
import CorpLlmGateway.Text.Marked
import CorpLlmGateway.Text.Numerals
import CorpLlmGateway.Text.PyStr
import CorpLlmGateway.Text.Regex
import CorpLlmGateway.Text.Runs
import CorpLlmGateway.Text.Scan
import CorpLlmGateway.Text.Unicode
import CorpLlmGateway.Text.Utf8
import CorpLlmGateway.Tokens.AuthMiddleware
import CorpLlmGateway.Tokens.InMemory
import CorpLlmGateway.Tokens.IssuancePolicy
import CorpLlmGateway.Tokens.Jwks
import CorpLlmGateway.Tokens.PostgresStore
import CorpLlmGateway.Tokens.Store
