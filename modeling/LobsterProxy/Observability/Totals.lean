import LobsterProxy.Observability.Scrape
import LobsterProxy.Server.Orchestrator

/-! What a scraper reads of a log: the totals of its counters, the requests that it leaves in
flight and the observations within each bound, of series that no log changes. -/

namespace Lobster.Observability
open Decimal Double Exposition Server

def Counter.family : Counter → String
  | requestsTotal => "lobsterai_proxy_requests_total"
  | requestsStream => "lobsterai_proxy_requests_stream_total"
  | requestsOk => "lobsterai_proxy_requests_ok_total"
  | requestsError => "lobsterai_proxy_requests_error_total"
  | upstream401 => "lobsterai_proxy_upstream_401_total"
  | upstream403 => "lobsterai_proxy_upstream_403_total"
  | upstream429 => "lobsterai_proxy_upstream_429_total"
  | upstream5xx => "lobsterai_proxy_upstream_5xx_total"
  | upstream200Error => "lobsterai_proxy_upstream_200_error_total"
  | webSearchToolCalls => "lobsterai_proxy_web_search_tool_calls_total"
  | webSearchErrors => "lobsterai_proxy_web_search_errors_total"
  | serverToolRounds => "lobsterai_proxy_server_tool_rounds_total"
  | mixedToolRounds => "lobsterai_proxy_mixed_tool_rounds_total"
  | pauseTurnEvents => "lobsterai_proxy_pause_turn_events_total"
  | countTokensRequests => "lobsterai_proxy_count_tokens_requests_total"
  | modelDiscoveryRequests => "lobsterai_proxy_model_discovery_requests_total"
  | transportErrors => "lobsterai_proxy_transport_errors_total"
  | refreshSuccess | refreshFailure => "lobsterai_proxy_refresh_total"
  | failovers => "lobsterai_proxy_failover_total"
  | bytesIn => "lobsterai_proxy_request_bytes_total"
  | bytesOut => "lobsterai_proxy_response_bytes_total"
  | inputTokensTotal => "lobsterai_proxy_input_tokens_total"
  | outputTokensTotal => "lobsterai_proxy_output_tokens_total"
  | cachedTokensTotal => "lobsterai_proxy_cached_tokens_total"
  | streamStalls _ => "lobsterai_proxy_stream_stall_total"

def stallLabel : StallKind → String
  | .firstEvent => "first_event"
  | .firstSemantic => "first_semantic"
  | .streamIdle => "stream_idle"
  | .semanticIdle => "semantic_idle"

def Counter.labels : Counter → List (String × String)
  | refreshSuccess => [("result", "success")]
  | refreshFailure => [("result", "failure")]
  | streamStalls kind => [("kind", stallLabel kind)]
  | _ => []

def Latency.family : Latency → String
  | requestDuration => "lobsterai_proxy_request_duration_seconds"
  | ttft => "lobsterai_proxy_ttft_seconds"
  | firstReasoning => "lobsterai_proxy_first_reasoning_seconds"
  | firstText => "lobsterai_proxy_first_text_seconds"
  | firstTool => "lobsterai_proxy_first_tool_seconds"

def reading (text : List Char) (family : String) (series : String × List (String × String)) :
    Option ℚ := do
  let families ← Exposition.read text
  let value ← lookup families family series
  number value.toList

section Parts
variable (m : Metrics) (gauges : ScrapeGauges) (version : String) (uptimeSecs : UInt64)

theorem reading_sample {p : Part} (hp : p ∈ parts m gauges version uptimeSecs) {s : Sample}
    (hs : s ∈ p.family.samples) :
    reading (render m gauges version uptimeSecs) p.family.name s.series =
      number s.value.toList := by
  have hfamily : p.family ∈ page m gauges version uptimeSecs := List.mem_map_of_mem hp
  have hlookup := lookup_of_mem (page_names m gauges version uptimeSecs) hfamily s.series
  unfold reading
  rw [read_render, Option.bind_eq_bind, Option.bind_some, hlookup,
    value_of_mem (part_series_nodup p) hs, Option.bind_eq_bind, Option.bind_some]

theorem reading_nat {p : Part} (hp : p ∈ parts m gauges version uptimeSecs) {name : String}
    {labels : List (String × String)} {n : UInt64}
    (hs : sample name labels (natText n) ∈ p.family.samples) :
    reading (render m gauges version uptimeSecs) p.family.name (name, labels) =
      some (n.toNat : ℚ) := by
  refine (reading_sample m gauges version uptimeSecs hp hs).trans ?_
  unfold sample
  rw [String.toList_ofList]
  exact number_nat n.toNat

variable {m gauges version uptimeSecs} in
theorem reading_gauge {name help : String} {value : Int64}
    (hp : Part.gauge name help value ∈ parts m gauges version uptimeSecs) :
    reading (render m gauges version uptimeSecs) name (name, []) = some (value.toInt : ℚ) := by
  refine (reading_sample m gauges version uptimeSecs hp List.mem_cons_self).trans ?_
  unfold sample
  rw [String.toList_ofList, number_int]

theorem reading_counter (c : Counter) :
    reading (render m gauges version uptimeSecs) c.family (c.family, c.labels) =
      some ((m.counters c).toNat : ℚ) := by
  have hrefreshes : Part.refreshes (m.counters .refreshSuccess) (m.counters .refreshFailure) ∈
      parts m gauges version uptimeSecs := @List.mem_of_getElem? _ _ 21 _ rfl
  have hstalls : Part.stalls (fun kind => m.counters (.streamStalls kind)) ∈
      parts m gauges version uptimeSecs :=
    @List.mem_of_getElem? _ _ 25 _ rfl
  have hplain {name : String} {value : UInt64}
      (hp : ∃ help, Part.counter name help value ∈ parts m gauges version uptimeSecs) :
      reading (render m gauges version uptimeSecs) name (name, []) = some (value.toNat : ℚ) := by
    obtain ⟨help, hmem⟩ := hp
    exact reading_nat m gauges version uptimeSecs hmem List.mem_cons_self
  cases c with
  | refreshSuccess =>
    exact reading_nat m gauges version uptimeSecs hrefreshes List.mem_cons_self
  | refreshFailure =>
    exact reading_nat m gauges version uptimeSecs hrefreshes
      (List.mem_cons_of_mem _ List.mem_cons_self)
  | streamStalls kind =>
    have hkind : (kind, stallLabel kind) ∈ stallKinds := by cases kind <;> decide
    exact reading_nat m gauges version uptimeSecs hstalls
      (List.mem_map.mpr ⟨(kind, stallLabel kind), hkind, rfl⟩)
  | _ =>
    refine hplain ⟨?_, ?_⟩
    rotate_left
    unfold parts
    repeat first
      | exact List.mem_cons_self
      | refine List.mem_cons_of_mem _ ?_

end Parts

section Histograms

theorem histogram_samples (name help : String) (observations : List Millis) :
    (Part.histogram name help (.ofObservations observations)).family.samples =
      histogramBucketsSeconds.map
        (fun bound => sample (name ++ "_bucket") [("le", String.ofList (formatBound bound))]
        (natText (UInt64.ofNat (observations.countP fun millis => millis.val ≤ bound.millis)))) ++
      [sample (name ++ "_bucket") [("le", "+Inf")] (natText (UInt64.ofNat observations.length)),
        sample (name ++ "_sum") [] (formatSum (Histogram.ofObservations observations).sumSeconds),
        sample (name ++ "_count") [] (natText (UInt64.ofNat observations.length))] := by
  unfold Part.family
  dsimp only
  rw [Histogram.bucketCounts_ofObservations, ← List.map_prod_left_eq_zip, List.map_map]
  rfl

theorem histogram_series (name help : String) (observations : List Millis) :
    (Part.histogram name help (.ofObservations observations)).family.samples.map Sample.series =
      histogramBucketsSeconds.map (bucketSeries name) ++
        [(name ++ "_bucket", [("le", "+Inf")]), (name ++ "_sum", []), (name ++ "_count", [])] := by
  rw [histogram_samples, List.map_append, List.map_map]
  rfl

theorem latency_part (m : Metrics) (gauges : ScrapeGauges) (version : String)
    (uptimeSecs : UInt64) (l : Latency) :
    ∃ help, Part.histogram l.family help (m.latencies l) ∈ parts m gauges version uptimeSecs := by
  cases l with
  | requestDuration => exact ⟨_, @List.mem_of_getElem? _ _ 32 _ rfl⟩
  | ttft => exact ⟨_, @List.mem_of_getElem? _ _ 33 _ rfl⟩
  | firstReasoning => exact ⟨_, @List.mem_of_getElem? _ _ 34 _ rfl⟩
  | firstText => exact ⟨_, @List.mem_of_getElem? _ _ 35 _ rfl⟩
  | firstTool => exact ⟨_, @List.mem_of_getElem? _ _ 36 _ rfl⟩

/-- The sum is written exactly for more than two hundred years. -/
theorem number_formatSum {observations : List Millis}
    (hsum : (observations.map micros).sum < 2 ^ 33 * 10 ^ 6) :
    number (formatSum (Histogram.ofObservations observations).sumSeconds) =
      some (((observations.map micros).sum : ℚ) / 10 ^ 6) := by
  have hrange : (observations.map micros).sum < 2 ^ 53 := hsum.trans (by norm_num)
  have hfits : (UInt64.ofNat (observations.map micros).sum).toNat = (observations.map micros).sum :=
    UInt64.toNat_ofNat_of_lt' (hrange.trans (by norm_num))
  have hsize : ((observations.map micros).sum : ℚ) / 10 ^ 6 < 2 ^ (33 : ℤ) := by
    rw [div_lt_iff₀ (by norm_num)]
    exact_mod_cast hsum
  unfold formatSum Histogram.sumSeconds Histogram.ofObservations
  dsimp only
  rw [hfits]
  have hformat :=
    @formatFixed_div (observations.map micros).sum 6 33 (by norm_num) hrange (by norm_num) hsize
    (by norm_num)
  rw [show (1000000 : ℕ) = 10 ^ 6 from rfl, hformat, number_fixedText (by norm_num)]

end Histograms

section Scraping
variable (log : List Entry) (gauges : ScrapeGauges) (version : String) (uptimeSecs : UInt64)

theorem readings :
    let text := render (Runs.run Entry.perform log .new) gauges version uptimeSecs
    (∀ c : Counter, reading text c.family (c.family, c.labels) =
      some ((total log c % 2 ^ 64 : ℕ) : ℚ)) ∧
      reading text "lobsterai_proxy_requests_in_flight" ("lobsterai_proxy_requests_in_flight", []) =
        some (((inFlight (fun _ => true) log).bmod (2 ^ 64) : ℤ) : ℚ) ∧
      reading text "lobsterai_proxy_streams_in_flight" ("lobsterai_proxy_streams_in_flight", []) =
        some (((inFlight id log).bmod (2 ^ 64) : ℤ) : ℚ) := by
  intro text
  unfold text
  rw [run_perform]
  refine ⟨fun c => ?_, ?_, ?_⟩
  · rw [reading_counter]
    exact congrArg (fun n : ℕ => some (n : ℚ)) (UInt64.toNat_ofNat ..)
  · refine (reading_gauge (@List.mem_of_getElem? _ _ 6 _ rfl)).trans ?_
    exact congrArg (fun n : ℤ => some (n : ℚ)) (Int64.toInt_ofInt ..)
  · refine (reading_gauge (@List.mem_of_getElem? _ _ 7 _ rfl)).trans ?_
    exact congrArg (fun n : ℤ => some (n : ℚ)) (Int64.toInt_ofInt ..)

/-- Whatever was recorded in whatever order, the page says of each counter its total, and of
the requests and the streams how many are in flight. -/
theorem scraped_totals (log' : List Entry) (hsame : log.Perm log') :
    let text := render (Runs.run Entry.perform log .new) gauges version uptimeSecs
    (∀ c : Counter, reading text c.family (c.family, c.labels) =
      some ((total log' c % 2 ^ 64 : ℕ) : ℚ)) ∧
      reading text "lobsterai_proxy_requests_in_flight" ("lobsterai_proxy_requests_in_flight", []) =
        some (((inFlight (fun _ => true) log').bmod (2 ^ 64) : ℤ) : ℚ) ∧
      reading text "lobsterai_proxy_streams_in_flight" ("lobsterai_proxy_streams_in_flight", []) =
        some (((inFlight id log').bmod (2 ^ 64) : ℤ) : ℚ) := by
  have htotal (c : Counter) : total log c = total log' c := (hsame.map _).sum_eq
  have hflight (counts : Bool → Bool) : inFlight counts log = inFlight counts log' :=
    (hsame.map _).sum_eq
  obtain ⟨hcounters, hrequests, hstreams⟩ := readings log gauges version uptimeSecs
  rw [hflight] at hrequests hstreams
  exact ⟨fun c => htotal c ▸ hcounters c, hrequests, hstreams⟩

theorem scraped_totals_two :
    reading
      (render (Runs.run Entry.perform
        [.guardNew true, .bytesIn 7, .guardDrop true, .bytesIn 5] .new) ⟨1, 0, 0⟩ "v" 3)
      "lobsterai_proxy_request_bytes_total" ("lobsterai_proxy_request_bytes_total", []) =
        some 12 := by
  have htotals :=
    scraped_totals [.guardNew true, .bytesIn 7, .guardDrop true, .bytesIn 5] ⟨1, 0, 0⟩ "v" 3
      [.guardNew true, .guardDrop true, .bytesIn 5, .bytesIn 7] (by decide)
  have htotal : total [.guardNew true, .guardDrop true, .bytesIn 5, .bytesIn 7] .bytesIn % 2 ^ 64 =
      12 := by decide
  exact (htotals.1 .bytesIn).trans (congrArg (fun n : ℕ => some (n : ℚ)) htotal)

/-- Of each latency the page says how many observations took no more than each bound, although
the bounds are compared as doubles, how many there were, and what they add up to. -/
theorem scraped_latencies (l : Latency) :
    let text := render (Runs.run Entry.perform log .new) gauges version uptimeSecs
    let observations := observedIn log l
    (∀ bound ∈ histogramBucketsSeconds, reading text l.family (bucketSeries l.family bound) =
        some ((observations.countP (fun millis => millis.val ≤ bound.millis) % 2 ^ 64 : ℕ) : ℚ)) ∧
      reading text l.family (l.family ++ "_bucket", [("le", "+Inf")]) =
      some ((observations.length % 2 ^ 64 : ℕ) : ℚ) ∧
      reading text l.family (l.family ++ "_count", []) =
      some ((observations.length % 2 ^ 64 : ℕ) : ℚ) ∧
      ((observations.map micros).sum < 2 ^ 33 * 10 ^ 6 →
        reading text l.family (l.family ++ "_sum", []) =
        some (((observations.map micros).sum : ℚ) / 10 ^ 6)) := by
  intro text observations
  obtain ⟨help, hpart⟩ := latency_part (.ofLog log) gauges version uptimeSecs l
  change Part.histogram l.family help (.ofObservations observations) ∈ _ at hpart
  have hsamples := histogram_samples l.family help observations
  have hmod (n : ℕ) : (UInt64.ofNat n).toNat = n % 2 ^ 64 := UInt64.toNat_ofNat ..
  unfold text
  rw [run_perform]
  refine ⟨fun bound hbound => ?_, ?_, ?_, fun hsum => ?_⟩
  · rw [← hmod]
    refine reading_nat _ _ _ _ hpart ?_
    rw [hsamples]
    exact List.mem_append_left _ (List.mem_map_of_mem hbound)
  · rw [← hmod]
    refine reading_nat _ _ _ _ hpart ?_
    rw [hsamples]
    exact List.mem_append_right _ List.mem_cons_self
  · rw [← hmod]
    refine reading_nat _ _ _ _ hpart ?_
    rw [hsamples]
    exact List.mem_append_right _ (by simp)
  · have hmem :
        sample (l.family ++ "_sum") []
        (formatSum (Histogram.ofObservations observations).sumSeconds) ∈
        (Part.histogram l.family help (.ofObservations observations)).family.samples := by
      rw [hsamples]
      exact List.mem_append_right _ (by simp)
    refine (reading_sample _ _ _ _ hpart hmem).trans ?_
    unfold sample
    rw [String.toList_ofList, number_formatSum hsum]

theorem scraped_latencies_two :
    reading (render (Runs.run Entry.perform [.duration 1234, .duration 20] .new) ⟨1, 0, 0⟩ "v" 3)
      "lobsterai_proxy_request_duration_seconds"
        ("lobsterai_proxy_request_duration_seconds_sum", []) =
        some (1254 / 1000) := by
  have hlatencies :=
    scraped_latencies [.duration 1234, .duration 20] ⟨1, 0, 0⟩ "v" 3 .requestDuration
  have hsum : ((observedIn [.duration 1234, .duration 20] .requestDuration).map micros).sum =
      1254000 := by decide
  have hread := hlatencies.2.2.2 (by rw [hsum]; norm_num)
  rw [hsum] at hread
  exact hread.trans (by norm_num)

def shape (f : Family) : String × String × Kind × List (String × List (String × String)) :=
  (f.name, f.help, f.kind, f.samples.map Sample.series)

theorem shape_histogram (name help : String) (observations observations' : List Millis) :
    shape (Part.histogram name help (.ofObservations observations)).family =
      shape (Part.histogram name help (.ofObservations observations')).family := by
  unfold shape
  rw [histogram_series, histogram_series]
  rfl

theorem shape_counter (name help : String) (value value' : UInt64) :
    shape (Part.counter name help value).family = shape (Part.counter name help value').family :=
      rfl

theorem shape_gauge (name help : String) (value value' : Int64) :
    shape (Part.gauge name help value).family = shape (Part.gauge name help value').family := by
  simp only [shape, Part.family, List.map_cons, List.map_nil, sample, Sample.series]

theorem shape_uptime (secs secs' : UInt64) :
    shape (Part.uptime secs).family = shape (Part.uptime secs').family :=
  rfl

theorem shape_refreshes (success success' failure failure' : UInt64) :
    shape (Part.refreshes success failure).family =
      shape (Part.refreshes success' failure').family := rfl

theorem shape_stalls (slots slots' : StallKind → UInt64) :
    shape (Part.stalls slots).family = shape (Part.stalls slots').family := rfl

theorem parts_shape (log' : List Entry) (gauges' : ScrapeGauges) (uptimeSecs' : UInt64) :
    List.Forall₂ (fun p q => shape p.family = shape q.family)
      (parts (.ofLog log) gauges version uptimeSecs)
      (parts (.ofLog log') gauges' version uptimeSecs') := by
  unfold parts
  repeat first
    | exact .nil
    | refine .cons (shape_counter ..) ?_
    | refine .cons (shape_gauge ..) ?_
    | refine .cons (shape_histogram ..) ?_
    | refine .cons (shape_uptime ..) ?_
    | refine .cons (shape_refreshes ..) ?_
    | refine .cons (shape_stalls ..) ?_
    | refine .cons rfl ?_

/-- No log brings a series to the page or takes one away. -/
theorem scraped_series (log' : List Entry) (gauges' : ScrapeGauges) (uptimeSecs' : UInt64) :
    (Exposition.read (render (Runs.run Entry.perform log .new) gauges version uptimeSecs)).map
      (List.map shape) =
      (Exposition.read (render (Runs.run Entry.perform log' .new) gauges' version uptimeSecs')).map
        (List.map shape) := by
  have hshape := parts_shape log gauges version uptimeSecs log' gauges' uptimeSecs'
  rw [run_perform, run_perform, read_render, read_render, Option.map_some, Option.map_some]
  unfold page
  rw [List.map_map, List.map_map]
  exact congrArg some (List.forall₂_eq_eq_eq ▸ List.forall₂_map_left_iff.mpr
    (List.forall₂_map_right_iff.mpr hshape))

end Scraping

section Accounts
variable (serde : Serde) (jsonError : List UInt8 → String) (hash : String → Fin (2 ^ 64))
    (defaultModel : String)
  (timeouts : StreamTimeouts)

def Entry.update? : Entry → Option Server.Metrics.Update
  | request stream => some (.recordRequest stream)
  | ok => some .recordOk
  | error => some .recordError
  | guardNew stream => some (.guardNew stream)
  | guardDrop stream => some (.guardDrop stream)
  | _ => none

structure Agree (log : List Entry) (accounts : Server.Metrics) : Prop where
  requests : total log .requestsTotal = accounts.requestsTotal
  streams : total log .requestsStream = accounts.requestsStream
  ok : total log .requestsOk = accounts.requestsOk
  error : total log .requestsError = accounts.requestsError
  requestsInFlight : inFlight (fun _ => true) log = accounts.requestsInFlight
  streamsInFlight : inFlight id log = accounts.streamsInFlight

theorem agree_step {log : List Entry} {accounts : Server.Metrics} (h : Agree log accounts)
    (e : Entry) :
    Agree (log ++ [e]) (Runs.run Server.Metrics.Update.perform e.update?.toList accounts) := by
  have hzero : ∀ n : ℤ, n + 0 = n := add_zero
  obtain ⟨hrequests, hstreams, hok, herror, hflight, hstreaming⟩ := h
  constructor <;>
    simp only [total_append, inFlight_append, hrequests, hstreams, hok, herror, hflight, hstreaming]
  all_goals
    cases e with
    | request stream => cases stream <;> first | rfl | exact hzero _
    | guardNew stream | guardDrop stream => cases stream <;> rfl
    | tokens input output cached =>
      cases input <;> cases output <;> cases cached <;> first | rfl | exact hzero _
    | refresh success => cases success <;> first | rfl | exact hzero _
    | _ => first | rfl | exact hzero _

theorem agree_after (log : List Entry) :
    Agree log (Server.Metrics.after (log.filterMap Entry.update?)) := by
  induction log using List.reverseRecOn with
  | nil => exact ⟨rfl, rfl, rfl, rfl, rfl, rfl⟩
  | append_singleton log e ih =>
    have hlast : [e].filterMap Entry.update? = e.update?.toList := by
      cases h : e.update? <;> simp [h]
    rw [List.filterMap_append, hlast, Server.Metrics.after_append]
    exact agree_step ih e

theorem counts_exchanges {exchanges : List Exchange} (hcompleted : ∀ exchange ∈ exchanges,
      (exchange.handled serde jsonError hash defaultModel timeouts).completed = true) :
    let updates :=
      exchanges.flatMap
        fun exchange => (exchange.handled serde jsonError hash defaultModel timeouts).updates
    updates.countP Server.Metrics.Update.isRequest =
        exchanges.countP
          (fun exchange => exchange.authorized && exchange.readable serde jsonError) ∧
      updates.countP Server.Metrics.Update.isOutcome = exchanges.countP Exchange.authorized ∧
      (updates.map Server.Metrics.Update.flight).sum = 0 := by
  induction exchanges with
  | nil => exact ⟨rfl, rfl, rfl⟩
  | cons exchange exchanges ih =>
    obtain ⟨hfirst, hrest⟩ := List.forall_mem_cons.mp hcompleted
    obtain ⟨hrequests, houtcomes, hflight⟩ := ih hrest
    intro updates
    unfold updates
    rw [List.flatMap_cons, List.countP_append, List.countP_append, List.map_append, List.sum_append,
      hrequests, houtcomes, hflight, List.countP_cons, List.countP_cons]
    rcases handled_cases serde jsonError hash defaultModel timeouts
      hfirst with ⟨hauthorized, hnone⟩ | ⟨hauthorized, hcounts⟩
    · rw [hnone, hauthorized]
      exact ⟨Nat.zero_add _, Nat.zero_add _, rfl⟩
    · rw [hcounts.requests, hcounts.outcomes, hcounts.flight, hauthorized, Bool.true_and]
      refine ⟨?_, Nat.add_comm .., add_zero 0⟩
      cases exchange.readable serde jsonError
      · exact Nat.zero_add _
      · exact Nat.add_comm ..

/-- When every request has been handled, whatever else was recorded and however it all
interleaved, the page says that none is in flight, the requests are those that were read, and the
outcomes are those that were authorized. -/
theorem scraped_accounts (exchanges : List Exchange) (log : List Entry) (gauges : ScrapeGauges)
    (version : String)
    (uptimeSecs : UInt64)
    (hcompleted : ∀ exchange ∈ exchanges,
      (exchange.handled serde jsonError hash defaultModel timeouts).completed = true)
    (hinterleaved : (log.filterMap Entry.update?).Perm (exchanges.flatMap fun exchange =>
      (exchange.handled serde jsonError hash defaultModel timeouts).updates)) :
    let text := render (Runs.run Entry.perform log .new) gauges version uptimeSecs
    reading text "lobsterai_proxy_requests_in_flight"
        ("lobsterai_proxy_requests_in_flight", []) = some 0 ∧
      reading text "lobsterai_proxy_requests_total" ("lobsterai_proxy_requests_total", []) =
        some ((exchanges.countP (fun exchange =>
          exchange.authorized && exchange.readable serde jsonError) % 2 ^ 64 : ℕ) : ℚ) ∧
      ∃ ok error : ℕ, ok + error = exchanges.countP Exchange.authorized ∧
        reading text "lobsterai_proxy_requests_ok_total" ("lobsterai_proxy_requests_ok_total", []) =
          some ((ok % 2 ^ 64 : ℕ) : ℚ) ∧
        reading text "lobsterai_proxy_requests_error_total"
          ("lobsterai_proxy_requests_error_total", []) =
          some ((error % 2 ^ 64 : ℕ) : ℚ) := by
  obtain ⟨hrequests, houtcomes, hflight⟩ :=
    counts_exchanges serde jsonError hash defaultModel timeouts hcompleted
  obtain ⟨htotal, hended, hbusy⟩ := Server.Metrics.after_counts (log.filterMap Entry.update?)
  have hagree := agree_after log
  rw [hinterleaved.countP_eq, hrequests, ← hagree.requests] at htotal
  rw [hinterleaved.countP_eq, houtcomes, ← hagree.ok, ← hagree.error] at hended
  rw [(hinterleaved.map _).sum_eq, hflight, ← hagree.requestsInFlight] at hbusy
  intro text
  obtain ⟨hcounters, hinFlight, -⟩ := readings log gauges version uptimeSecs
  refine ⟨hinFlight.trans ?_, (hcounters .requestsTotal).trans ?_, _, _, hended,
    hcounters .requestsOk, hcounters .requestsError⟩
  · rw [hbusy]
    rfl
  · rw [htotal]

/-- A request without a token, while a credential is refreshed. -/
theorem scraped_accounts_one :
    reading
      (render (Runs.run Entry.perform
        [.bytesIn 2, .request false, .guardNew false, .refresh true, .error,
          .guardDrop false] .new) ⟨1, 0, 0⟩ "v" 3)
      "lobsterai_proxy_requests_total" ("lobsterai_proxy_requests_total", []) = some 1 := by
  have haccounts :=
    scraped_accounts .emptyObject (fun _ => "") (fun _ => 0) "m" noTimeouts
      [posted (.ok [123, 125])]
      [.bytesIn 2, .request false, .guardNew false, .refresh true, .error, .guardDrop false]
      ⟨1, 0, 0⟩ "v" 3 (by decide) (by decide)
  have hcount : [posted (.ok [123, 125])].countP (fun exchange =>
      exchange.authorized && exchange.readable .emptyObject fun _ => "") = 1 := by decide
  rw [hcount] at haccounts
  exact haccounts.2.1.trans (by norm_num)

end Accounts

end Lobster.Observability
