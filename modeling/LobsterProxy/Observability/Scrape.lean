import LobsterProxy.Base.Fragment
import LobsterProxy.Observability.Render

/-! What a scraper reads from the metrics page: every part is a family, and the page is read back
as its families. -/

namespace Lobster.Observability
open Decimal Double Exposition Server Text

section Escaping

theorem escapeLabel_eq (value : List Char) : escapeLabel value = value.flatMap escape := by
  have hchar : ∀ c : Char, ((if c = '\\' then ['\\', '\\'] else [c]).flatMap fun d =>
      (if d = '"' then ['\\', '"'] else [d]).flatMap
        fun d => if d = '\n' then ['\\', 'n'] else [d]) = escape c := by
    intro c
    unfold escape
    by_cases hback : c = '\\'
    · subst hback
      rfl
    by_cases hquote : c = '"'
    · subst hquote
      rfl
    by_cases hfeed : c = '\n'
    · subst hfeed
      rfl
    · simp [hback, hquote, hfeed]
  unfold escapeLabel
  rw [replace_singleton, replace_singleton, replace_singleton, List.flatMap_assoc,
    List.flatMap_assoc]
  exact List.flatMap_congr fun c _ => hchar c

theorem flatMap_escape_plain {text : List Char} (h : ∀ c ∈ text, c ≠ '\\' ∧ c ≠ '"' ∧ c ≠ '\n') :
    text.flatMap escape = text := by
  have hchar : ∀ c ∈ text, escape c = [c] := by
    intro c hc
    obtain ⟨hback, hquote, hfeed⟩ := h c hc
    unfold escape
    rw [if_neg hback, if_neg hquote, if_neg hfeed]
  rw [List.flatMap_congr hchar, List.flatMap_singleton']

end Escaping

section Families

def sample (name : String) (labels : List (String × String)) (number : List Char) : Sample :=
  ⟨name, labels, String.ofList number⟩

def Part.family : Part → Family
  | info version => ⟨"lobsterai_proxy_info", "Static build information (always 1).", .gauge,
    [sample "lobsterai_proxy_info" [("version", version)] ['1']]⟩
  | uptime secs => ⟨"lobsterai_proxy_uptime_seconds", "Seconds since this process started.", .gauge,
    [sample "lobsterai_proxy_uptime_seconds" [] (natText secs)]⟩
  | counter name help value => ⟨name, help, .counter, [sample name [] (natText value)]⟩
  | gauge name help value => ⟨name, help, .gauge, [sample name [] (intText value.toInt)]⟩
  | refreshes success failure =>
    ⟨"lobsterai_proxy_refresh_total", "Access-token refresh attempts by result.", .counter,
    [("success", success), ("failure", failure)].map fun p =>
      sample "lobsterai_proxy_refresh_total" [("result", p.1)] (natText p.2)⟩
  | stalls slots =>
    ⟨"lobsterai_proxy_stream_stall_total",
      "Upstream streams abandoned by the stall watchdog, by kind.",
    .counter, stallKinds.map fun p =>
      sample "lobsterai_proxy_stream_stall_total" [("kind", p.2)] (natText (slots p.1))⟩
  | histogram name help h => ⟨name, help, .histogram,
    ((histogramBucketsSeconds.zip h.bucketCounts).map fun p =>
      sample (name ++ "_bucket") [("le", String.ofList (formatBound p.1))] (natText p.2)) ++
    [sample (name ++ "_bucket") [("le", "+Inf")] (natText h.count),
      sample (name ++ "_sum") [] (formatSum h.sumSeconds),
      sample (name ++ "_count") [] (natText h.count)]⟩

def page (m : Metrics) (gauges : ScrapeGauges) (version : String) (uptimeSecs : UInt64) :
    List Family :=
  (parts m gauges version uptimeSecs).map Part.family

theorem helpType_eq (name help : String) (kind : Kind) : helpType name help kind.text =
    (Line.help name help).text ++ ['\n'] ++ ((Line.type name kind).text ++ ['\n']) := by
  have hhelp : "# HELP ".toList = helpMark := by decide
  have htype : "# TYPE ".toList = typeMark := by decide
  unfold helpType Line.text
  rw [hhelp, htype]
  simp

theorem plainLine_eq (name : String) (number : List Char) :
    plainLine name number = (Line.sample (sample name [] number)).text ++ ['\n'] := by
  unfold plainLine Line.text sample labelsText
  simp

theorem labelledLine_eq (name key value : String) (number : List Char) :
    labelledLine name key (value.toList.flatMap escape) number =
      (Line.sample (sample name [(key, value)] number)).text ++ ['\n'] := by
  unfold labelledLine Line.text sample labelsText labelText
  simp

theorem write_singleton (f : Family) :
    write [f] = helpType f.name f.help f.kind.text ++ f.samples.flatMap
      fun s => (Line.sample s).text ++ ['\n'] := by
  unfold write writeLines Family.lines
  rw [List.flatMap_singleton, List.flatMap_cons, List.flatMap_cons, List.flatMap_map, helpType_eq]
  simp only [List.append_assoc]

theorem flatMap_sample {α : Type} (xs : List α) (f : α → Sample) :
    (xs.map f).flatMap (fun s => (Line.sample s).text ++ ['\n']) =
      xs.flatMap fun x => (Line.sample (f x)).text ++ ['\n'] :=
  List.flatMap_map ..

theorem formatBound_plain (bound : Bound) :
    (formatBound bound).flatMap escape = formatBound bound := by
  apply flatMap_escape_plain
  intro c hc
  have hplain : c.isDigit = true ∨ c = '.' := by
    unfold formatBound at hc
    split_ifs at hc
    · exact .inl (isDigit_of_mem_toDigits hc)
    · exact mem_fixedText hc
  rcases hplain with hdigit | rfl
  · refine ⟨?_, ?_, ?_⟩ <;> rintro rfl <;> exact absurd hdigit (by decide)
  · decide

theorem part_text (p : Part) : p.text = write [p.family] := by
  rw [write_singleton]
  cases p with
  | info version =>
    rw [Part.text, escapeLabel_eq, labelledLine_eq]
    simp [Part.family, Kind.text]
  | uptime secs =>
    rw [Part.text, plainLine_eq]
    simp [Part.family, Kind.text]
  | counter name help value =>
    rw [Part.text, Observability.counter, plainLine_eq]
    simp [Part.family, Kind.text]
  | gauge name help value =>
    rw [Part.text, Observability.gauge, plainLine_eq]
    simp [Part.family, Kind.text]
  | refreshes success failure =>
    have hsuccess : "success".toList = "success".toList.flatMap escape := by decide
    have hfailure : "failure".toList = "failure".toList.flatMap escape := by decide
    rw [Part.text, List.flatMap_cons, List.flatMap_cons, hsuccess, hfailure, labelledLine_eq,
      labelledLine_eq]
    simp [Part.family, Kind.text]
  | stalls slots =>
    have hplain : ∀ p ∈ stallKinds, p.2.toList = p.2.toList.flatMap escape := by decide
    have hlines : (stallKinds.flatMap fun p =>
        labelledLine "lobsterai_proxy_stream_stall_total" "kind" p.2.toList (natText (slots p.1))) =
        stallKinds.flatMap
          fun p => (Line.sample (sample "lobsterai_proxy_stream_stall_total" [("kind", p.2)]
          (natText (slots p.1)))).text ++ ['\n'] :=
      List.flatMap_congr fun p hp => by rw [hplain p hp, labelledLine_eq]
    rw [Part.text, hlines, ← flatMap_sample]
    rfl
  | histogram name help h =>
    have hinf : ['+', 'I', 'n', 'f'] = "+Inf".toList.flatMap escape := by decide
    have hlines : ((histogramBucketsSeconds.zip h.bucketCounts).flatMap fun p =>
        labelledLine (name ++ "_bucket") "le" (formatBound p.1) (natText p.2)) =
        (histogramBucketsSeconds.zip h.bucketCounts).flatMap fun p =>
          (Line.sample
            (sample (name ++ "_bucket") [("le", String.ofList (formatBound p.1))]
            (natText p.2))).text ++ ['\n'] :=
      List.flatMap_congr fun p _ => by
        rw [← labelledLine_eq, String.toList_ofList, formatBound_plain]
    rw [Part.text, Observability.histogram, hlines, hinf, labelledLine_eq, plainLine_eq,
      plainLine_eq, ← flatMap_sample]
    simp only [Part.family, List.flatMap_append, List.flatMap_cons, List.flatMap_nil,
      List.append_nil, List.append_assoc]
    rfl

theorem render_eq (m : Metrics) (gauges : ScrapeGauges) (version : String) (uptimeSecs : UInt64) :
    render m gauges version uptimeSecs = write (page m gauges version uptimeSecs) := by
  unfold render page
  generalize parts m gauges version uptimeSecs = ps
  induction ps with
  | nil => rfl
  | cons p ps ih =>
    rw [List.flatMap_cons, ih, part_text, List.map_cons]
    unfold write writeLines
    rw [← List.flatMap_append, ← List.flatMap_append, List.singleton_append]

end Families

section Soundness

theorem number_formatSum_isSome (h : Histogram) :
    (number (formatSum h.sumSeconds)).isSome = true := by
  obtain ⟨f, _, _, hf, hneg, _⟩ :=
    div_ofNat (h.sumMicros.toNat_lt.trans (by norm_num : 2 ^ 64 < 2 ^ 128))
    (by norm_num : 0 < 1000000) (by norm_num)
  unfold formatSum Histogram.sumSeconds
  rw [hf, formatFixed_finite, hneg, if_neg Bool.false_ne_true, List.nil_append,
    number_fixedText (by norm_num)]
  rfl

theorem number_natText (n : UInt64) : (number (natText n)).isSome = true := by
  unfold natText
  rw [number_nat]
  rfl

theorem number_intText (n : ℤ) : (number (intText n)).isSome = true := by
  rw [number_int]
  rfl

theorem sample_sound {name : String} {labels : List (String × String)} {text : List Char}
    (hname : NameSound name) (hlabels : ∀ label ∈ labels, NameSound label.1)
    (htext : (number text).isSome = true) :
    (sample name labels text).Sound := by
  refine ⟨hname, hlabels, ?_⟩
  unfold sample
  rwa [String.toList_ofList]

theorem nameSound_append {name suffix : String} (hname : NameSound name)
    (hsuffix : ∀ c ∈ suffix.toList, isNameChar c = true) : NameSound (name ++ suffix) := by
  obtain ⟨⟨c, rest, hchars, hdigit⟩, hall⟩ := hname
  refine ⟨⟨c, rest ++ suffix.toList, ?_, hdigit⟩, fun c hc => ?_⟩
  · rw [String.toList_append, hchars, List.cons_append]
  · rw [String.toList_append, List.mem_append] at hc
    exact hc.elim (hall c) (hsuffix c)

theorem part_sound {p : Part} (hname : NameSound p.family.name)
    (hhelp : '\n' ∉ p.family.help.toList) :
    p.family.Sound := by
  refine ⟨hname, hhelp, ?_⟩
  have hkey {key : String} (h : NameSound key) (value : String) :
      ∀ label ∈ [(key, value)], NameSound label.1 := by
    intro label hlabel
    rw [List.mem_singleton.mp hlabel]
    exact h
  cases p with
  | info version =>
    refine List.forall_mem_singleton.mpr ⟨?_, List.mem_singleton_self _⟩
    exact sample_sound hname (hkey (nameSound_ofList (by decide)) version) (by decide +kernel)
  | uptime secs =>
    refine List.forall_mem_singleton.mpr ⟨?_, List.mem_singleton_self _⟩
    exact sample_sound hname (List.forall_mem_nil _) (number_natText secs)
  | counter name help value =>
    refine List.forall_mem_singleton.mpr ⟨?_, List.mem_singleton_self _⟩
    exact sample_sound hname (List.forall_mem_nil _) (number_natText value)
  | gauge name help value =>
    refine List.forall_mem_singleton.mpr ⟨?_, List.mem_singleton_self _⟩
    exact sample_sound hname (List.forall_mem_nil _) (number_intText value.toInt)
  | refreshes success failure =>
    intro s hs
    obtain ⟨p, -, rfl⟩ := List.mem_map.mp hs
    exact ⟨sample_sound hname (hkey (nameSound_ofList (by decide)) p.1) (number_natText p.2),
      List.mem_singleton_self _⟩
  | stalls slots =>
    intro s hs
    obtain ⟨p, -, rfl⟩ := List.mem_map.mp hs
    exact ⟨sample_sound hname (hkey (nameSound_ofList (by decide)) p.2)
      (number_natText (slots p.1)),
      List.mem_singleton_self _⟩
  | histogram name help h =>
    have hbucket : NameSound (name ++ "_bucket") :=
      nameSound_append hname (nameSound_ofList (by decide)).2
    have hsum : NameSound (name ++ "_sum") :=
      nameSound_append hname (nameSound_ofList (by decide)).2
    have hcount : NameSound (name ++ "_count") :=
      nameSound_append hname (nameSound_ofList (by decide)).2
    have hle : NameSound "le" := nameSound_ofList (by decide)
    intro s hs
    simp only [Part.family, List.mem_append, List.mem_map, List.mem_cons, List.not_mem_nil,
      or_false] at hs
    rcases hs with ⟨p, -, rfl⟩ | rfl | rfl | rfl
    · exact ⟨sample_sound hbucket (hkey hle _) (number_natText p.2), List.mem_cons_self⟩
    · exact ⟨sample_sound hbucket (hkey hle _) (number_natText h.count), List.mem_cons_self⟩
    · exact ⟨sample_sound hsum (List.forall_mem_nil _) (number_formatSum_isSome h),
        List.mem_cons_of_mem _ List.mem_cons_self⟩
    · exact ⟨sample_sound hcount (List.forall_mem_nil _) (number_natText h.count),
        List.mem_cons_of_mem _ (List.mem_cons_of_mem _ List.mem_cons_self)⟩

def bucketSeries (name : String) (bound : Bound) : String × List (String × String) :=
  (name ++ "_bucket", [("le", String.ofList (formatBound bound))])

theorem histogram_series_nodup (name help : String) (h : Histogram) :
    ((Part.histogram name help h).family.samples.map Sample.series).Nodup := by
  have hlabels :
      ((histogramBucketsSeconds.map fun bound => String.ofList (formatBound bound)) ++
      ["+Inf"]).Nodup := by
    decide +kernel
  have hbuckets :
      (histogramBucketsSeconds.map (bucketSeries name) ++
      [(name ++ "_bucket", [("le", "+Inf")])]).Nodup := by
    have hmap := hlabels.map (f := fun label => (name ++ "_bucket", [("le", label)])) (by
      intro a b h
      simpa using h)
    rwa [List.map_append, List.map_map] at hmap
  have hcounted :
      ((histogramBucketsSeconds.zip h.bucketCounts).map fun p => bucketSeries name p.1).Sublist
      (histogramBucketsSeconds.map (bucketSeries name)) := by
    have hfst : ((histogramBucketsSeconds.zip h.bucketCounts).map Prod.fst).Sublist
        histogramBucketsSeconds := by
      rw [List.zip_eq_zip_take_min, List.map_fst_zip (by simp)]
      exact List.take_sublist _ _
    have hmap := hfst.map (bucketSeries name)
    rwa [List.map_map] at hmap
  have hnames : name ++ "_sum" ≠ name ++ "_count" :=
    fun h => absurd (String.append_right_inj name |>.mp h) (by decide)
  have hseries : (Part.histogram name help h).family.samples.map Sample.series =
      ((histogramBucketsSeconds.zip h.bucketCounts).map fun p => bucketSeries name p.1) ++
        [(name ++ "_bucket", [("le", "+Inf")])] ++
        [(name ++ "_sum", []), (name ++ "_count", [])] := by
    unfold Part.family
    rw [List.map_append, List.map_map, List.append_assoc]
    rfl
  rw [hseries]
  refine List.nodup_append.mpr ⟨hbuckets.sublist (hcounted.append_right _), by simp [hnames], ?_⟩
  intro a ha b hb
  have ha := (hcounted.append_right [(name ++ "_bucket", [("le", "+Inf")])]).mem ha
  simp only [List.mem_append, List.mem_map, List.mem_singleton, bucketSeries] at ha
  simp only [List.mem_cons, List.not_mem_nil, or_false] at hb
  rcases ha with ⟨_, _, rfl⟩ | rfl <;> rcases hb with rfl | rfl <;> simp

theorem refreshes_nodup (success failure : UInt64) :
    ((Part.refreshes success failure).family.samples.map Sample.series).Nodup := by
  have hseries : (Part.refreshes success failure).family.samples.map Sample.series =
    ["success", "failure"].map fun result =>
    ("lobsterai_proxy_refresh_total", [("result", result)]) := rfl
  rw [hseries]
  decide

theorem stalls_nodup (slots : StallKind → UInt64) :
    ((Part.stalls slots).family.samples.map Sample.series).Nodup := by
  have hseries : (Part.stalls slots).family.samples.map Sample.series =
    stallKinds.map fun p => ("lobsterai_proxy_stream_stall_total", [("kind", p.2)]) := rfl
  rw [hseries]
  decide

theorem part_series_nodup (p : Part) : (p.family.samples.map Sample.series).Nodup := by
  cases p with
  | refreshes success failure => exact refreshes_nodup success failure
  | stalls slots => exact stalls_nodup slots
  | histogram name help h => exact histogram_series_nodup name help h
  | _ => exact List.nodup_singleton _

theorem parts_named (m : Metrics) (gauges : ScrapeGauges) (version : String) (uptimeSecs : UInt64) :
    ∀ p ∈ parts m gauges version uptimeSecs, NameSound p.family.name ∧
      '\n' ∉ p.family.help.toList := by
  unfold parts
  simp only [List.forall_mem_cons, Part.family]
  repeat refine ⟨⟨nameSound_ofList (by decide +kernel), newline_not_mem_ofList (by decide +kernel)⟩,
    ?_⟩
  exact List.forall_mem_nil _

theorem page_names (m : Metrics) (gauges : ScrapeGauges) (version : String) (uptimeSecs : UInt64) :
    ((page m gauges version uptimeSecs).map Family.name).Nodup := by
  simp [page, parts, Part.family]

theorem page_sampleNames (m : Metrics) (gauges : ScrapeGauges) (version : String)
    (uptimeSecs : UInt64) :
    ((page m gauges version uptimeSecs).flatMap fun f => f.kind.names f.name).Nodup := by
  simp [page, parts, Part.family, Kind.names]

/-- The page is read back, whatever the metrics and the version are. -/
theorem read_render (m : Metrics) (gauges : ScrapeGauges) (version : String) (uptimeSecs : UInt64) :
    Exposition.read (render m gauges version uptimeSecs) =
      some (page m gauges version uptimeSecs) := by
  have hsound : ∀ f ∈ page m gauges version uptimeSecs, f.Sound := by
    intro f hf
    obtain ⟨p, hp, rfl⟩ := List.mem_map.mp hf
    obtain ⟨hname, hhelp⟩ := parts_named m gauges version uptimeSecs p hp
    exact part_sound hname hhelp
  have heach : ∀ f ∈ page m gauges version uptimeSecs, (f.samples.map Sample.series).Nodup := by
    intro f hf
    obtain ⟨p, -, rfl⟩ := List.mem_map.mp hf
    exact part_series_nodup p
  rw [render_eq]
  exact read_write hsound (page_names m gauges version uptimeSecs)
    (series_nodup hsound (page_sampleNames m gauges version uptimeSecs) heach)

end Soundness

end Lobster.Observability
