import LobsterProxy.Base.Json
import LobsterProxy.Base.SortedMap
import LobsterProxy.Base.Text
import LobsterProxy.Base.Snoc
import LobsterProxy.Chat.ProtocolError
import LobsterProxy.Chat.Pieces
import LobsterProxy.Deepseek.Policy
import LobsterProxy.Anthropic.Request
import LobsterProxy.Anthropic.SystemText
import LobsterProxy.Anthropic.BlockProtocol
import LobsterProxy.Anthropic.StreamWellFormed
import LobsterProxy.Anthropic.Account
import LobsterProxy.Anthropic.Outline
import LobsterProxy.Anthropic.BlockOrder
import LobsterProxy.Anthropic.Rebuild
import LobsterProxy.Anthropic.ToolPairing
import LobsterProxy.Anthropic.Replay
import LobsterProxy.Anthropic.History
import LobsterProxy.Anthropic.Continuity
import LobsterProxy.Base.Holding
import LobsterProxy.Chat.Phase
import LobsterProxy.Responses.Board
import LobsterProxy.Responses.DoneText
import LobsterProxy.Responses.Exposure
import LobsterProxy.Responses.ItemOrder
import LobsterProxy.Responses.Pump
import LobsterProxy.Anthropic.Pump
import LobsterProxy.Redaction
import LobsterProxy.Upstream.Body
import LobsterProxy.Upstream.Failover
import LobsterProxy.Upstream.Peek
import LobsterProxy.Upstream.Pool
import LobsterProxy.Upstream.Passing
import LobsterProxy.Responses.Identity
import LobsterProxy.Responses.ByteLoops
import LobsterProxy.Secrecy
import LobsterProxy.Shadow.Store
import LobsterProxy.Shadow.Sessions
import LobsterProxy.Shadow.Recall
import LobsterProxy.Server.Shadowing
import LobsterProxy.Base.Runs
import LobsterProxy.Base.Recency
import LobsterProxy.Upstream.Stickiness
import LobsterProxy.Upstream.Cooldowns
import LobsterProxy.Upstream.Leftovers
import LobsterProxy.Upstream.Traffic
import LobsterProxy.Shadow.Accounting
import LobsterProxy.Base.Double
import LobsterProxy.Base.Gate
import LobsterProxy.Upstream.Checkin
import LobsterProxy.Upstream.Due
import LobsterProxy.Upstream.SingleFlight
import LobsterProxy.Responses.Replay
import LobsterProxy.Shadow.Bounds
import LobsterProxy.Shadow.PlainMap
import LobsterProxy.Deepseek.Canonical
import LobsterProxy.Anthropic.TokenEpochs
import LobsterProxy.Anthropic.Represented
import LobsterProxy.Upstream.Attempts
import LobsterProxy.Server.Retained
import LobsterProxy.Server.Opening
import LobsterProxy.Chat.Turn
import LobsterProxy.Server.Bookkeeping
import LobsterProxy.Base.Utf8
import LobsterProxy.Base.Sse
import LobsterProxy.Server.Wire
import LobsterProxy.Shutdown
import LobsterProxy.Server.Orchestrator
import LobsterProxy.Upstream.Persistence
import LobsterProxy.Upstream.Selection
import LobsterProxy.Upstream.RetryTime
import LobsterProxy.Shadow.Eviction
import LobsterProxy.Server.Pipeline
import LobsterProxy.Base.JsonText
import LobsterProxy.Base.Tokens
import LobsterProxy.Base.Document
import LobsterProxy.Deepseek.CanonicalText
import LobsterProxy.Base.DocOrder
import LobsterProxy.Deepseek.ArgumentText
import LobsterProxy.Base.Balance
import LobsterProxy.Anthropic.ToolBalance
import LobsterProxy.Base.Fragment
import LobsterProxy.Redaction.Secrets
import LobsterProxy.Redaction.Words
import LobsterProxy.Redaction.Jwt
import LobsterProxy.Config
import LobsterProxy.Base.Base64
import LobsterProxy.Anthropic.DocumentText
import LobsterProxy.Base.Frames
import LobsterProxy.Upstream.EarlyError
import LobsterProxy.Anthropic.Oversized
import LobsterProxy.Responses.Openings
import LobsterProxy.Responses.Lifecycle
import LobsterProxy.Upstream.Completeness
import LobsterProxy.Upstream.Shapes
import LobsterProxy.Upstream.Login
import LobsterProxy.Server.Deadlines
import LobsterProxy.Upstream.Rotation
import LobsterProxy.Anthropic.MediaCharge
import LobsterProxy.Base.Rounding
import LobsterProxy.Base.Decimal
import LobsterProxy.Base.Exposition
import LobsterProxy.Base.Buckets
import LobsterProxy.Observability.Histogram
import LobsterProxy.Observability.Metrics
import LobsterProxy.Observability.Render
import LobsterProxy.Observability.Scrape
import LobsterProxy.Observability.Totals
import LobsterProxy.Base.Publishing
import LobsterProxy.Upstream.Directory
import LobsterProxy.Upstream.SignIn
import LobsterProxy.Base.Tagged
import LobsterProxy.Session
import LobsterProxy.Server.Isolation
import LobsterProxy.Config.Load
import LobsterProxy.Server.Access
import LobsterProxy.Server.Meter
import LobsterProxy.Server.Latency
import LobsterProxy.Server.Measures
import LobsterProxy.Upstream.Renewals
import LobsterProxy.Base.NumberText
import LobsterProxy.Base.Serializer
