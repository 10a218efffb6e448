import LobsterProxy.Base.Exposition
import LobsterProxy.Observability.Metrics

/-! The metrics page: the text that is rendered, and the families that a scraper reads from it. -/

namespace Lobster.Observability
open Decimal Double Exposition Server Text

/-- The gauges whose values are computed for the page. -/
structure ScrapeGauges where
  credentialsHealthy : UInt64
  credentialsCooling : UInt64
  reasoningShadowEntries : UInt64
  deriving DecidableEq, Repr

section Text

def natText (n : UInt64) : List Char := Nat.toDigits 10 n.toNat

def escapeLabel (value : List Char) : List Char :=
  replace ['\n'] ['\\', 'n'] (replace ['"'] ['\\', '"'] (replace ['\\'] ['\\', '\\'] value))

def helpType (name help kind : String) : List Char :=
  "# HELP ".toList ++ (name.toList ++ ' ' :: (help.toList ++ '\n' ::
    ("# TYPE ".toList ++ (name.toList ++ ' ' :: (kind.toList ++ ['\n'])))))

def plainLine (name : String) (number : List Char) : List Char :=
  name.toList ++ ' ' :: (number ++ ['\n'])

def labelledLine (name key : String) (value number : List Char) : List Char :=
  name.toList ++ '{' ::
  (key.toList ++ '=' :: '"' :: (value ++ '"' :: '}' :: ' ' :: (number ++ ['\n'])))

def counter (name help : String) (value : UInt64) : List Char :=
  helpType name help "counter" ++ plainLine name (natText value)

def gauge (name help : String) (value : Int64) : List Char :=
  helpType name help "gauge" ++ plainLine name (intText value.toInt)

/-- The shortest text of a bound: its literal, and no places where it has none. -/
def formatBound (bound : Bound) : List Char :=
  if bound.digits % 10 ^ bound.places = 0 then Nat.toDigits 10 (bound.digits / 10 ^ bound.places)
  else fixedText bound.places bound.digits

def formatSum (seconds : Double) : List Char := formatFixed 6 seconds

def histogram (name help : String) (h : Histogram) : List Char :=
  helpType name help "histogram" ++
    ((histogramBucketsSeconds.zip h.bucketCounts).flatMap fun p =>
      labelledLine (name ++ "_bucket") "le" (formatBound p.1) (natText p.2)) ++
    labelledLine (name ++ "_bucket") "le" ['+', 'I', 'n', 'f'] (natText h.count) ++
    plainLine (name ++ "_sum") (formatSum h.sumSeconds) ++ plainLine (name ++ "_count")
      (natText h.count)

end Text

/-- The slots of the stall counters, and their labels. -/
def stallKinds : List (StallKind × String) :=
  [(.firstEvent, "first_event"), (.firstSemantic, "first_semantic"), (.streamIdle, "stream_idle"),
    (.semanticIdle, "semantic_idle")]

/-- The parts of the page, as they are pushed. -/
inductive Part where
  | info (version : String)
  | uptime (secs : UInt64)
  | counter (name help : String) (value : UInt64)
  | gauge (name help : String) (value : Int64)
  | refreshes (success failure : UInt64)
  | stalls (slots : StallKind → UInt64)
  | histogram (name help : String) (h : Histogram)

def Part.text : Part → List Char
  | info version =>
    helpType "lobsterai_proxy_info" "Static build information (always 1)." "gauge" ++
      labelledLine "lobsterai_proxy_info" "version" (escapeLabel version.toList) ['1']
  | uptime secs =>
    helpType "lobsterai_proxy_uptime_seconds" "Seconds since this process started." "gauge" ++
      plainLine "lobsterai_proxy_uptime_seconds" (natText secs)
  | counter name help value => Observability.counter name help value
  | gauge name help value => Observability.gauge name help value
  | refreshes success failure =>
    helpType "lobsterai_proxy_refresh_total" "Access-token refresh attempts by result." "counter" ++
      [("success", success), ("failure", failure)].flatMap fun p =>
        labelledLine "lobsterai_proxy_refresh_total" "result" p.1.toList (natText p.2)
  | stalls slots =>
    helpType "lobsterai_proxy_stream_stall_total"
      "Upstream streams abandoned by the stall watchdog, by kind." "counter" ++
      stallKinds.flatMap fun p =>
        labelledLine "lobsterai_proxy_stream_stall_total" "kind" p.2.toList (natText (slots p.1))
  | histogram name help h => Observability.histogram name help h

def parts (m : Metrics) (gauges : ScrapeGauges) (version : String) (uptimeSecs : UInt64) :
    List Part :=
  [.info version,
    .uptime uptimeSecs,
    .counter "lobsterai_proxy_requests_total" "Accepted POST /v1/messages requests."
      (m.counters .requestsTotal),
    .counter "lobsterai_proxy_requests_stream_total"
      "Accepted requests that requested client-side streaming."
      (m.counters .requestsStream),
    .counter "lobsterai_proxy_requests_ok_total"
      "Requests answered successfully (upstream HTTP 200 accepted)."
      (m.counters .requestsOk),
    .counter "lobsterai_proxy_requests_error_total" "Requests that failed locally or upstream."
      (m.counters .requestsError),
    .gauge "lobsterai_proxy_requests_in_flight"
      "Requests currently being served (accepted, response not yet complete)."
      m.requestsInFlight,
    .gauge "lobsterai_proxy_streams_in_flight"
      "Requests currently being served on the streaming path."
      m.streamsInFlight,
    .counter "lobsterai_proxy_upstream_401_total" "Upstream HTTP 401 responses observed."
      (m.counters .upstream401),
    .counter "lobsterai_proxy_upstream_403_total" "Upstream HTTP 403 responses observed."
      (m.counters .upstream403),
    .counter "lobsterai_proxy_upstream_429_total" "Upstream HTTP 429 responses observed."
      (m.counters .upstream429),
    .counter "lobsterai_proxy_upstream_5xx_total" "Upstream HTTP 5xx responses observed."
      (m.counters .upstream5xx),
    .counter "lobsterai_proxy_transport_errors_total"
      "Upstream connection/transport failures before any response."
      (m.counters .transportErrors),
    .counter "lobsterai_proxy_upstream_200_error_total"
      "HTTP 200 responses whose stream opened with an event:error frame."
      (m.counters .upstream200Error),
    .counter "lobsterai_proxy_web_search_tool_calls_total"
      "Server-side web searches executed for web_search server-tool rounds."
      (m.counters .webSearchToolCalls),
    .counter "lobsterai_proxy_web_search_errors_total"
      "Server-side web searches that failed (reported to the model as errors)."
      (m.counters .webSearchErrors),
    .counter "lobsterai_proxy_server_tool_rounds_total"
      "Upstream rounds fully executed server-side (continued upstream)."
      (m.counters .serverToolRounds),
    .counter "lobsterai_proxy_mixed_tool_rounds_total"
      "Upstream rounds mixing server and client tools (server part executed)."
      (m.counters .mixedToolRounds),
    .counter "lobsterai_proxy_pause_turn_events_total"
      "Responses ended with stop_reason pause_turn for client resumption."
      (m.counters .pauseTurnEvents),
    .counter "lobsterai_proxy_count_tokens_requests_total" "Token-count requests served."
      (m.counters .countTokensRequests),
    .counter "lobsterai_proxy_model_discovery_requests_total"
      "Model discovery (/v1/models) requests served."
      (m.counters .modelDiscoveryRequests),
    .refreshes (m.counters .refreshSuccess) (m.counters .refreshFailure),
    .counter "lobsterai_proxy_failover_total"
      "Credential failovers performed after a confirmed upstream 429."
      (m.counters .failovers),
    .gauge "lobsterai_proxy_credentials_healthy"
      "Credentials currently usable (not cooling, file present)."
      gauges.credentialsHealthy.toInt64,
    .gauge "lobsterai_proxy_credentials_cooling" "Credentials currently in cooldown."
      gauges.credentialsCooling.toInt64,
    .stalls fun kind => m.counters (.streamStalls kind),
    .counter "lobsterai_proxy_input_tokens_total" "Input tokens reported by upstream usage frames."
      (m.counters .inputTokensTotal),
    .counter "lobsterai_proxy_output_tokens_total"
      "Output tokens reported by upstream usage frames."
      (m.counters .outputTokensTotal),
    .counter "lobsterai_proxy_cached_tokens_total"
      "Prompt-cache read tokens reported by upstream usage frames."
      (m.counters .cachedTokensTotal),
    .counter "lobsterai_proxy_request_bytes_total" "Request body bytes accepted."
      (m.counters .bytesIn),
    .counter "lobsterai_proxy_response_bytes_total"
      "Generated reasoning/text/tool bytes sent downstream."
      (m.counters .bytesOut),
    .gauge "lobsterai_proxy_reasoning_shadow_entries"
      "Shadowed reasoning entries currently held in memory."
      gauges.reasoningShadowEntries.toInt64,
    .histogram "lobsterai_proxy_request_duration_seconds" "End-to-end request duration in seconds."
      (m.latencies .requestDuration),
    .histogram "lobsterai_proxy_ttft_seconds"
      "Time to first semantic output (reasoning/text/tool) in seconds."
      (m.latencies .ttft),
    .histogram "lobsterai_proxy_first_reasoning_seconds"
      "Time to first reasoning delta in seconds (observed streams only)."
      (m.latencies .firstReasoning),
    .histogram "lobsterai_proxy_first_text_seconds"
      "Time to first visible text delta in seconds (observed streams only)."
      (m.latencies .firstText),
    .histogram "lobsterai_proxy_first_tool_seconds"
      "Time to first tool-call delta in seconds (observed streams only)."
      (m.latencies .firstTool)]

def render (m : Metrics) (gauges : ScrapeGauges) (version : String) (uptimeSecs : UInt64) :
    List Char :=
  (parts m gauges version uptimeSecs).flatMap Part.text

end Lobster.Observability
