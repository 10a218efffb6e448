import LobsterProxy.Anthropic.TokenEpochs

/-! What the elements of user messages say, and whether the conversion carries all of it. -/

namespace Lobster.Anthropic
open Conversion

section Says
variable (serde : Serde) (index : Nat)

/-- A text member: absent and null are empty, and what is not a text says nothing that could
be carried. -/
def word? (element : Json) (key : String) : Option String :=
  match element.get? key with
  | none | some .null => some ""
  | some (.str text) => some text
  | some _ => none

def searchTexts? : Option Json → Option (List String)
  | none | some .null => some []
  | some (.str text) => some [text]
  | some (.arr blocks) =>
    (blocks.mapM fun block => Json.getStr? block "text").map
      fun texts => texts.filter fun text => text ≠ ""
  | some _ => none

/-- The texts and the media that an element of a tool result says. -/
def elementSays (element : Json) : Option (List String × List Json) :=
  match element.getStr? "type" with
  | some "text" => (element.getStr? "text").map fun text => ([text], [])
  | some "image" => (convertImageBlock element index).toOption.map fun image => ([], [image])
  | some "document" =>
    (convertDocumentBlock serde element index).toOption.map fun file => ([], [file])
  | some "tool_reference" =>
    some (["[tool reference: " ++ (element.getStr? "tool_name").getD "?" ++ "]"], [])
  | some "search_result" => do
    let title ← word? element "title"
    let url ← word? element "url"
    let texts ← searchTexts? (element.get? "content")
    return ((title ++ "\n" ++ url) :: texts, [])
  | _ => none

/-- The content of the tool message that carries all that a tool result says. -/
def resultSays (block : Json) : Option Json :=
  match block.get? "content" with
  | none | some .null => some (.str "")
  | some (.str text) => some (.str text)
  | some (.arr elements) => (elements.mapM (elementSays serde index)).map fun said =>
    toolResultContent (said.flatMap Prod.fst) (said.flatMap Prod.snd)
  | some _ => none

def blockSays (block : Json) : Option UserPart :=
  match block.getStr? "type" with
  | some "text" => (block.getStr? "text").map fun text =>
    if text = "" then .nothing else .ordinary (.obj [("type", .str "text"), ("text", .str text)])
  | some "image" => (convertImageBlock block index).toOption.map .ordinary
  | some "document" => (convertDocumentBlock serde block index).toOption.map .ordinary
  | some "tool_result" => do
    let id ← block.getStr? "tool_use_id"
    let content ← resultSays serde index block
    return .toolMessage
      (.obj [("role", .str "tool"), ("tool_call_id", .str id), ("content", content)])
  | _ => none

/-- The messages that carry all that the blocks say: each tool result with its elements, then
the other blocks. Nothing does when a block has no kind or an unknown one. -/
def messageSays (blocks : List Json) : Option (List Json) :=
  (blocks.mapM (blockSays serde index)).map fun parts =>
    parts.filterMap UserPart.toolMessage? ++ ordinaryMessage (parts.filterMap UserPart.ordinary?)

end Says

def userBlocks? (message : Json) : Option (List Json) :=
  if message.getStrD "role" = "user" then (message.get? "content").bind Json.asArray else none

/-- Where the conversation has the messages of a user message, these carry all that its blocks
say. -/
def NothingDropped (serde : Serde) (messages out : List Json) : Prop :=
  ∀ i message blocks, messages[i]? = some message → userBlocks? message = some blocks →
    ∃ before share after, out = before ++ share ++ after ∧
    before.length = chatPosition serde messages i ∧
      messageSays serde i blocks = some share

/-- Only a text, or text blocks without any, are carried of a search result's content. -/
def plainContent (content : Option Json) : Bool :=
  match content with
  | none | some .null | some (.str _) => true
  | some (.arr blocks) => blocks.all fun block => block.getStr? "text" = some ""
  | some _ => false

def wholeElement (element : Json) : Bool :=
  match element.getStr? "type" with
  | none => false
  | some "text" => (element.getStr? "text").isSome
  | some "search_result" => (word? element "title").isSome && (word? element "url").isSome &&
      plainContent (element.get? "content")
  | some _ => true

def wholeBlock (block : Json) : Bool :=
  match block.getStr? "type" with
  | some "text" => (block.getStr? "text").isSome
  | some "tool_result" =>
    match block.get? "content" with
    | some (.arr elements) => elements.all wholeElement
    | _ => true
  | _ => true

section Elements
variable {serde : Serde} {index : Nat} {element : Json} {share said : List String × List Json}

theorem getStr?_cleanBlock {block : Json} {key : String} (h : block.distinct = true)
    (hcache : "cache_control" ≠ key)
    (hcitations : "citations" ≠ key) : (cleanBlock block).getStr? key = block.getStr? key := by
  unfold Json.getStr?
  rw [get?_cleanBlock h hcache hcitations]

theorem getStrD_cleanBlock {block : Json} {key : String} (h : block.distinct = true)
    (hcache : "cache_control" ≠ key)
    (hcitations : "citations" ≠ key) : (cleanBlock block).getStrD key = block.getStrD key := by
  unfold Json.getStrD
  rw [getStr?_cleanBlock h hcache hcitations]

theorem convertImageBlock_cleanBlock {block : Json} (h : block.distinct = true) (index : Nat) :
    convertImageBlock (cleanBlock block) index = convertImageBlock block index := by
  unfold convertImageBlock
  rw [get?_cleanBlock h (by decide) (by decide)]

theorem convertDocumentBlock_cleanBlock {block : Json} (h : block.distinct = true) (serde : Serde)
    (index : Nat) :
    convertDocumentBlock serde (cleanBlock block) index =
      convertDocumentBlock serde block index := by
  unfold convertDocumentBlock
  rw [get?_cleanBlock h (by decide) (by decide), getStr?_cleanBlock h (by decide) (by decide)]

theorem toOption_of_ok {α : Type} {x : Conversion α} {a : α} (h : x = .ok a) :
    x.toOption = some a := by
  rw [h]
  rfl

theorem getStrD_of_word? {key word : String} (h : word? element key = some word) :
    element.getStrD key = word := by
  unfold word? at h
  unfold Json.getStrD Json.getStr?
  split at h
  · next hnone =>
    rw [hnone]
    exact Option.some.inj h
  · next hnull =>
    rw [hnull]
    exact Option.some.inj h
  · next text htext =>
    rw [htext]
    exact Option.some.inj h
  · cases h

theorem mapM_eq_some {α β : Type} {f : α → Option β} {xs : List α} {ys : List β} :
    xs.mapM f = some ys ↔ List.Forall₂ (fun x y => f x = some y) xs ys := by
  induction xs generalizing ys with
  | nil =>
    rw [List.mapM_nil]
    constructor
    · intro h
      cases h
      exact .nil
    · intro h
      cases h
      rfl
  | cons x xs ih =>
    rw [List.mapM_cons]
    constructor
    · intro h
      obtain ⟨y, hy, h⟩ := Option.bind_eq_some_iff.mp h
      obtain ⟨zs, hzs, h⟩ := Option.bind_eq_some_iff.mp h
      cases h
      exact .cons hy (ih.mp hzs)
    · intro h
      cases h with
      | cons hy hrest =>
        exact Option.bind_eq_some_iff.mpr
          ⟨_, hy, Option.bind_eq_some_iff.mpr ⟨_, ih.mpr hrest, rfl⟩⟩

theorem filter_eq_nil_of_plain {blocks : List Json} {texts : List String}
    (h : blocks.mapM (fun block => Json.getStr? block "text") = some texts) :
    texts.filter (fun text => text ≠ "") = [] ↔
      blocks.all (fun block => block.getStr? "text" = some "") = true := by
  have hread := mapM_eq_some.mp h
  clear h
  induction hread with
  | nil => simp
  | @cons block text blocks texts hblock _ ih =>
    rw [List.all_cons, List.filter_cons, hblock]
    by_cases htext : text = ""
    · simpa [htext] using ih
    · simp [htext]

theorem searchTexts_eq {content : Option Json} {texts : List String}
    (h : searchTexts? content = some texts) :
    ∃ more, texts = ((content.bind Json.asStr).toList) ++ more ∧ (∀ text ∈ more, text ≠ "") ∧
      (more = [] ↔ plainContent content = true) := by
  unfold searchTexts? at h
  split at h
  · cases h
    exact ⟨[], rfl, by simp, by simp [plainContent]⟩
  · cases h
    exact ⟨[], rfl, by simp, by simp [plainContent]⟩
  · cases h
    exact ⟨[], rfl, by simp, by simp [plainContent]⟩
  · next blocks =>
    obtain ⟨all, hall, rfl⟩ := Option.map_eq_some_iff.mp h
    refine ⟨all.filter fun text => text ≠ "", rfl, by simp, ?_⟩
    exact filter_eq_nil_of_plain hall
  · cases h

theorem elementSays_eq (hdistinct : element.distinct = true)
    (h : convertToolResultPart serde index element = .ok share)
      (hmeans : elementSays serde index element = some said) :
    said.2 = share.2 ∧ ∃ more, said.1 = share.1 ++ more ∧ (∀ text ∈ more, text ≠ "") ∧
      (more = [] ↔ wholeElement element = true) := by
  have hkinds := convertToolResultPart_kinds h
  rw [getStr?_cleanBlock hdistinct (by decide) (by decide)] at hkinds
  unfold elementSays at hmeans
  unfold wholeElement
  rcases hkinds with ⟨hkind, rfl⟩ | ⟨hkind, image, himage, rfl⟩ | ⟨hkind, file, hfile, rfl⟩ |
    ⟨hkind, rfl⟩ | ⟨hkind, rfl⟩ | ⟨hkind, rfl⟩
  · rw [hkind] at hmeans ⊢
    obtain ⟨text, htext, rfl⟩ := Option.map_eq_some_iff.mp hmeans
    refine ⟨rfl, [], ?_, by simp, by simp [htext]⟩
    rw [getStrD_cleanBlock hdistinct (by decide) (by decide)]
    simp [Json.getStrD, htext]
  · rw [hkind] at hmeans ⊢
    rw [convertImageBlock_cleanBlock hdistinct] at himage
    have hsame : said = ([], [image]) := by simpa [toOption_of_ok himage] using hmeans.symm
    exact ⟨by rw [hsame], [], by simp [hsame], by simp, by simp⟩
  · rw [hkind] at hmeans ⊢
    rw [convertDocumentBlock_cleanBlock hdistinct] at hfile
    have hsame : said = ([], [file]) := by simpa [toOption_of_ok hfile] using hmeans.symm
    exact ⟨by rw [hsame], [], by simp [hsame], by simp, by simp⟩
  · rw [hkind] at hmeans ⊢
    rw [getStr?_cleanBlock hdistinct (by decide) (by decide)]
    cases hmeans
    exact ⟨rfl, [], by simp, by simp, by simp⟩
  · rw [hkind] at hmeans ⊢
    obtain ⟨title, htitle, hmeans⟩ := Option.bind_eq_some_iff.mp hmeans
    obtain ⟨url, hurl, hmeans⟩ := Option.bind_eq_some_iff.mp hmeans
    obtain ⟨texts, htexts, hmeans⟩ := Option.bind_eq_some_iff.mp hmeans
    cases hmeans
    obtain ⟨more, hsplit, hmore, hplain⟩ := searchTexts_eq htexts
    refine ⟨rfl, more, ?_, hmore, ?_⟩
    · rw [getStrD_cleanBlock hdistinct (by decide) (by decide),
        getStrD_cleanBlock hdistinct (by decide) (by decide),
        getStr?_cleanBlock hdistinct (by decide) (by decide), getStrD_of_word? htitle,
        getStrD_of_word? hurl, hsplit]
      rfl
    · simp [htitle, hurl, hplain]
  · rw [hkind] at hmeans
    cases hmeans

theorem searchTexts_of_plain {content : Option Json} (h : plainContent content = true) :
    (searchTexts? content).isSome = true := by
  unfold plainContent at h
  unfold searchTexts?
  split at h
  · rfl
  · rfl
  · rfl
  · next blocks =>
    have hread : blocks.mapM (fun block => Json.getStr? block "text") =
        some (blocks.map fun _ => "") := by
      rw [mapM_eq_some, List.forall₂_map_right_iff, List.forall₂_same]
      intro block hblock
      exact of_decide_eq_true (List.all_eq_true.mp h block hblock)
    rw [hread]
    rfl
  · cases h

theorem says_of_whole (hdistinct : element.distinct = true)
    (h : convertToolResultPart serde index element = .ok share)
      (hwhole : wholeElement element = true) :
    (elementSays serde index element).isSome = true := by
  have hkinds := convertToolResultPart_kinds h
  rw [getStr?_cleanBlock hdistinct (by decide) (by decide)] at hkinds
  unfold wholeElement at hwhole
  unfold elementSays
  rcases hkinds with ⟨hkind, -⟩ | ⟨hkind, image, himage, -⟩ | ⟨hkind, file, hfile, -⟩ | ⟨hkind, -⟩ |
    ⟨hkind, -⟩ | ⟨hkind, -⟩
  · rw [hkind] at hwhole ⊢
    simpa using hwhole
  · rw [convertImageBlock_cleanBlock hdistinct] at himage
    simp [hkind, toOption_of_ok himage]
  · rw [convertDocumentBlock_cleanBlock hdistinct] at hfile
    simp [hkind, toOption_of_ok hfile]
  · rw [hkind]
    rfl
  · rw [hkind] at hwhole ⊢
    obtain ⟨hwords, hplain⟩ := Bool.and_eq_true_iff.mp hwhole
    obtain ⟨htitle, hurl⟩ := Bool.and_eq_true_iff.mp hwords
    obtain ⟨title, htitle⟩ := Option.isSome_iff_exists.mp htitle
    obtain ⟨url, hurl⟩ := Option.isSome_iff_exists.mp hurl
    obtain ⟨texts, htexts⟩ := Option.isSome_iff_exists.mp (searchTexts_of_plain hplain)
    rw [Option.isSome_iff_exists]
    exact ⟨_, Option.bind_eq_some_iff.mpr ⟨title, htitle,
      Option.bind_eq_some_iff.mpr ⟨url, hurl, Option.bind_eq_some_iff.mpr ⟨texts, htexts, rfl⟩⟩⟩⟩
  · rw [hkind] at hwhole
    cases hwhole

theorem elementSays_of_whole (hdistinct : element.distinct = true)
    (h : convertToolResultPart serde index element = .ok share)
      (hwhole : wholeElement element = true) :
    elementSays serde index element = some share := by
  obtain ⟨said, hsaid⟩ := Option.isSome_iff_exists.mp (says_of_whole hdistinct h hwhole)
  obtain ⟨hmedia, more, htexts, -, hmore⟩ := elementSays_eq hdistinct h hsaid
  rw [hmore.mpr hwhole, List.append_nil] at htexts
  rw [hsaid, ← Prod.ext htexts hmedia]

end Elements

section Contents

def weight (texts : List String) : Nat := (texts.map fun text => text.length + 1).sum

theorem weight_append (texts more : List String) :
    weight (texts ++ more) = weight texts + weight more := by
  unfold weight
  rw [List.map_append, List.sum_append]

theorem length_lines (texts : List String) : ("\n".intercalate texts).length =
    weight texts - 1 := by
  induction texts with
  | nil => rfl
  | cons text texts ih =>
    by_cases htexts : texts = []
    · subst htexts
      rw [String.intercalate_singleton]
      simp [weight]
    · obtain ⟨next, rest, rfl⟩ := List.exists_cons_of_ne_nil htexts
      rw [String.intercalate_cons_of_ne_nil htexts, String.length_append, String.length_append, ih]
      have hfirst : weight (text :: next :: rest) = text.length + 1 + weight (next :: rest) :=
        List.sum_cons
      have hnext : weight (next :: rest) = next.length + 1 + weight rest := List.sum_cons
      have hend : ("\n" : String).length = 1 := rfl
      omega

theorem weight_of_ne_empty {more : List String} (h : ∀ text ∈ more, text ≠ "") :
    (more = [] ∧ weight more = 0) ∨ (more ≠ [] ∧ 2 ≤ weight more) := by
  cases more with
  | nil => exact .inl ⟨rfl, rfl⟩
  | cons text more =>
    refine .inr ⟨List.cons_ne_nil _ _, ?_⟩
    have hfirst : weight (text :: more) = text.length + 1 + weight more := List.sum_cons
    have hlength : text.length ≠ 0 := by
      intro hzero
      exact h text (List.mem_cons_self ..) (String.length_eq_zero_iff.mp hzero)
    omega

theorem lines_of_toolResultContent {texts said : List String} {media : List Json}
    (h : toolResultContent said media = toolResultContent texts media) :
    "\n".intercalate said = "\n".intercalate texts := by
  unfold toolResultContent at h
  split_ifs at h with hmedia hsaid htexts htexts
  · exact Json.str.inj h
  · rw [List.isEmpty_iff.mp hsaid, List.isEmpty_iff.mp htexts]
  · have hlength := congrArg List.length (Json.arr.inj h)
    simp at hlength
  · have hlength := congrArg List.length (Json.arr.inj h)
    simp at hlength
  · have hfirst := (List.cons.inj (Json.arr.inj h)).1
    simpa using hfirst

variable {serde : Serde} {index : Nat} {elements : List Json}
    {shares saids : List (List String × List Json)}

theorem weight_says (hdistinct : ∀ element ∈ elements, element.distinct = true)
    (hshares :
      List.Forall₂ (fun element share => convertToolResultPart serde index element = .ok share)
      elements shares)
    (hsaids : List.Forall₂ (fun element said => elementSays serde index element = some said)
      elements saids) :
    saids.flatMap Prod.snd = shares.flatMap Prod.snd ∧
      ∃ extra, weight (saids.flatMap Prod.fst) = weight (shares.flatMap Prod.fst) + extra ∧
        (extra = 0 ∧ elements.all wholeElement = true ∨ 2 ≤ extra ∧
          elements.all wholeElement = false) := by
  induction hshares generalizing saids with
  | nil =>
    cases hsaids
    exact ⟨rfl, 0, rfl, .inl ⟨rfl, rfl⟩⟩
  | cons hshare _ ih =>
    cases hsaids with
    | cons hsaid hrest =>
      obtain ⟨hfirst, hothers⟩ := List.forall_mem_cons.mp hdistinct
      obtain ⟨hmedia, extra, hextra, hwhole⟩ := ih hothers hrest
      obtain ⟨hmedium, more, hsplit, hmore, hiff⟩ := elementSays_eq hfirst hshare hsaid
      refine ⟨by rw [List.flatMap_cons, List.flatMap_cons, hmedium,
        hmedia], weight more + extra, ?_, ?_⟩
      · rw [List.flatMap_cons, List.flatMap_cons, hsplit, weight_append, weight_append,
          weight_append, hextra]
        omega
      · rw [List.all_cons]
        rcases weight_of_ne_empty hmore with ⟨hnil, hzero⟩ | ⟨hne, htwo⟩
        · rw [hiff.mp hnil, Bool.true_and, hzero, Nat.zero_add]
          exact hwhole
        · rw [Bool.eq_false_iff.mpr (hiff.not.mp hne), Bool.false_and]
          exact .inr ⟨by omega, rfl⟩

theorem elementSays_of_all (hdistinct : ∀ element ∈ elements, element.distinct = true)
    (hshares : List.Forall₂
      (fun element share => convertToolResultPart serde index element = .ok share) elements shares)
    (hwhole : elements.all wholeElement = true) :
    List.Forall₂ (fun element said => elementSays serde index element = some said)
      elements shares := by
  have hboth : ∀ element ∈ elements, element.distinct = true ∧ wholeElement element = true :=
    fun element helement =>
    ⟨hdistinct element helement, List.all_eq_true.mp hwhole element helement⟩
  have hread := (List.forall₂_and_left _ _).mpr ⟨hboth, hshares⟩
  apply hread.imp
  rintro element share ⟨⟨hone, hcarried⟩, hshare⟩
  exact elementSays_of_whole hone hshare hcarried

/-- The content of a tool message is all that the tool result says if and only if each element
is carried as a whole. -/
theorem resultSays_iff {block content : Json} (hdistinct : block.distinct = true)
    (h : convertToolResultContent serde index (block.get? "content") = .ok content) :
    resultSays serde index block = some content ↔
      ∀ elements, block.get? "content" = some (.arr elements) →
        elements.all wholeElement = true := by
  unfold convertToolResultContent at h
  unfold resultSays
  split at h
  · next hcontent =>
    cases h
    simp [hcontent]
  · next hcontent =>
    cases h
    simp [hcontent]
  · next text hcontent =>
    cases h
    simp [hcontent]
  · next elements hcontent =>
    have helements : ∀ element ∈ elements, element.distinct = true := fun element =>
      Json.distinct_of_mem (Json.distinct_of_get? hdistinct hcontent)
    obtain ⟨shares, hshares, h⟩ := bind_eq_ok.mp h
    cases h
    have hconverted := mapM_eq_ok.mp hshares
    simp only [hcontent]
    constructor
    · intro hmeans others hothers
      obtain rfl : elements = others := Json.arr.inj (Option.some.inj hothers)
      obtain ⟨saids, hsaids, hsame⟩ := Option.map_eq_some_iff.mp hmeans
      obtain ⟨hmedia, extra, hextra, hwhole⟩ :=
        weight_says helements hconverted (mapM_eq_some.mp hsaids)
      rw [hmedia] at hsame
      have hlength := congrArg String.length (lines_of_toolResultContent hsame)
      rw [length_lines, length_lines] at hlength
      rcases hwhole with ⟨-, hwhole⟩ | ⟨hmore, -⟩
      · exact hwhole
      · omega
    · intro hwhole
      have hsaid := mapM_eq_some.mpr (elementSays_of_all helements hconverted (hwhole elements rfl))
      rw [hsaid]
      rfl
  · exact absurd h invalid_ne_ok

end Contents

section Blocks
variable {serde : Serde} {index : Nat} {block : Json} {part said : UserPart}
    {parts saids : List UserPart}
  {blocks : List Json}

theorem wholeBlock_toolResult (hkind : block.getStr? "type" = some "tool_result") : wholeBlock
    block = true ↔
    ∀ elements, block.get? "content" = some (.arr elements) → elements.all wholeElement = true := by
  unfold wholeBlock
  rw [hkind]
  cases hcontent : block.get? "content" with
  | none => simp
  | some content =>
    cases content with
    | arr elements => simp
    | _ => simp

theorem toolResult_cases (hdistinct : block.distinct = true)
    (hkind : block.getStr? "type" = some "tool_result")
    {message : Json} (h : convertToolResult serde (cleanBlock block) index = .ok message) :
    (blockSays serde index block = some (.toolMessage message) ∧ wholeBlock block = true) ∨
      (blockSays serde index block = none ∧ wholeBlock block = false) ∨
        ∃ other, other ≠ message ∧ blockSays serde index block = some (.toolMessage other) ∧
          wholeBlock block = false := by
  unfold convertToolResult at h
  rw [getStr?_cleanBlock hdistinct (by decide) (by decide),
    get?_cleanBlock hdistinct (by decide) (by decide)] at h
  obtain ⟨id, hid, h⟩ := bind_eq_ok.mp h
  obtain ⟨content, hcontent, h⟩ := bind_eq_ok.mp h
  cases h
  obtain ⟨hid, -⟩ := Option.filter_eq_some_iff.mp (orInvalid_eq_ok.mp hid)
  have hiff := (resultSays_iff hdistinct hcontent).trans (wholeBlock_toolResult hkind).symm
  unfold blockSays
  rw [hkind, hid]
  cases hmeans : resultSays serde index block with
  | none =>
    rw [hmeans] at hiff
    exact .inr (.inl ⟨rfl, by simpa using hiff⟩)
  | some full =>
    rw [hmeans] at hiff
    by_cases hsame : full = content
    · subst hsame
      exact .inl ⟨rfl, hiff.mp rfl⟩
    · refine .inr (.inr ⟨_, ?_, rfl, ?_⟩)
      · intro hmessage
        have hfields := Json.obj.inj hmessage
        simp [hsame] at hfields
      · simpa [hsame] using hiff

theorem blockSays_cases (hdistinct : block.distinct = true)
    (h : convertUserBlock serde index block = .ok part) :
    (blockSays serde index block = some part ∧ wholeBlock block = true) ∨
      (blockSays serde index block = none ∧ wholeBlock block = false) ∨
        ∃ message other, part = .toolMessage message ∧ other ≠ message ∧
          blockSays serde index block = some (.toolMessage other) ∧ wholeBlock block = false := by
  have hkinds := convertUserBlock_kinds h
  rw [getStrD_cleanBlock hdistinct (by decide) (by decide)] at hkinds
  rcases hkinds with
    ⟨hread, rfl⟩ | ⟨hread, image, himage, rfl⟩ | ⟨hread, file, hfile, rfl⟩ | ⟨hread, message,
      hmessage, rfl⟩
  all_goals have hkind := getStr?_of_getStrD hread (by decide)
  · unfold blockSays wholeBlock
    rw [hkind, getStrD_cleanBlock hdistinct (by decide) (by decide)]
    cases htext : block.getStr? "text" with
    | none => exact .inr (.inl ⟨rfl, rfl⟩)
    | some text =>
      refine .inl ⟨?_, rfl⟩
      simp [Json.getStrD, htext]
  · rw [convertImageBlock_cleanBlock hdistinct] at himage
    unfold blockSays wholeBlock
    simp [hkind, toOption_of_ok himage]
  · rw [convertDocumentBlock_cleanBlock hdistinct] at hfile
    unfold blockSays wholeBlock
    simp [hkind, toOption_of_ok hfile]
  · rcases toolResult_cases hdistinct hkind hmessage with hwhole | hnone | ⟨other, hmore⟩
    · exact .inl hwhole
    · exact .inr (.inl hnone)
    · exact .inr (.inr ⟨message, other, rfl, hmore⟩)

/-- The parts that the blocks say and those that they are converted to are as many of each
kind, and the same if and only if each block is carried as a whole. -/
theorem blocksSay (hdistinct : ∀ block ∈ blocks, block.distinct = true)
    (hparts : List.Forall₂ (fun block part => convertUserBlock serde index block = .ok part)
      blocks parts)
    (hsaids : List.Forall₂ (fun block said => blockSays serde index block = some said)
      blocks saids) :
    saids.filterMap UserPart.ordinary? = parts.filterMap UserPart.ordinary? ∧
      (saids.filterMap UserPart.toolMessage?).length =
        (parts.filterMap UserPart.toolMessage?).length ∧
        (saids.filterMap UserPart.toolMessage? = parts.filterMap UserPart.toolMessage? →
          blocks.all wholeBlock = true) := by
  induction hparts generalizing saids with
  | nil =>
    cases hsaids
    simp
  | cons hpart _ ih =>
    cases hsaids with
    | cons hsaid hrest =>
      obtain ⟨hfirst, hothers⟩ := List.forall_mem_cons.mp hdistinct
      obtain ⟨hordinary, hlength, hwhole⟩ := ih hothers hrest
      rcases blockSays_cases hfirst hpart with ⟨hsame, hone⟩ | ⟨hnone, -⟩ |
        ⟨message, other, rfl, hne, hmore, hone⟩
      · obtain rfl := Option.some.inj (hsaid.symm.trans hsame)
        rw [List.filterMap_cons, List.filterMap_cons, List.filterMap_cons, List.filterMap_cons,
          hordinary, List.all_cons, hone, Bool.true_and]
        refine ⟨rfl, ?_, ?_⟩
        · split <;> simp [hlength]
        · split
          · exact hwhole
          · intro hmessages
            exact hwhole (List.cons.inj hmessages).2
      · rw [hnone] at hsaid
        cases hsaid
      · obtain rfl := Option.some.inj (hsaid.symm.trans hmore)
        have hnext (m : Json) (rest : List UserPart) :
            (UserPart.toolMessage m :: rest).filterMap UserPart.toolMessage? =
            m :: rest.filterMap UserPart.toolMessage? := rfl
        rw [List.filterMap_cons_none rfl, List.filterMap_cons_none rfl, hnext, hnext,
          List.length_cons, List.length_cons, hlength]
        refine ⟨hordinary, rfl, ?_⟩
        intro hmessages
        have hfirst := (List.cons.inj hmessages).1
        exact absurd hfirst hne

theorem blockSays_of_whole (hdistinct : block.distinct = true)
    (h : convertUserBlock serde index block = .ok part) (hwhole : wholeBlock block = true) :
    blockSays serde index block = some part := by
  rcases blockSays_cases hdistinct h with ⟨hsame, -⟩ | ⟨-, hlost⟩ | ⟨_, _, -, -, -, hlost⟩
  · exact hsame
  · rw [hwhole] at hlost
    cases hlost
  · rw [hwhole] at hlost
    cases hlost

theorem blockSays_of_all (hdistinct : ∀ block ∈ blocks, block.distinct = true)
    (hparts : List.Forall₂ (fun block part => convertUserBlock serde index block = .ok part)
      blocks parts)
    (hwhole : blocks.all wholeBlock = true) :
    List.Forall₂ (fun block said => blockSays serde index block = some said) blocks parts := by
  have hboth : ∀ block ∈ blocks, block.distinct = true ∧ wholeBlock block = true :=
    fun block hblock => ⟨hdistinct block hblock, List.all_eq_true.mp hwhole block hblock⟩
  have hread := (List.forall₂_and_left _ _).mpr ⟨hboth, hparts⟩
  apply hread.imp
  rintro block part ⟨⟨hone, hcarried⟩, hpart⟩
  exact blockSays_of_whole hone hpart hcarried

theorem length_messageSays {share : List Json} (hdistinct : ∀ block ∈ blocks, block.distinct = true)
    (hparts : List.Forall₂ (fun block part => convertUserBlock serde index block = .ok part)
      blocks parts)
    (hmeans : messageSays serde index blocks = some share) :
    share.length =
      (parts.filterMap UserPart.toolMessage? ++
        ordinaryMessage (parts.filterMap UserPart.ordinary?)).length := by
  obtain ⟨saids, hsaids, rfl⟩ := Option.map_eq_some_iff.mp hmeans
  obtain ⟨hordinary, hlength, -⟩ := blocksSay hdistinct hparts (mapM_eq_some.mp hsaids)
  rw [List.length_append, List.length_append, hordinary, hlength]

theorem messageSays_iff (hdistinct : ∀ block ∈ blocks, block.distinct = true)
    (hparts : List.Forall₂ (fun block part => convertUserBlock serde index block = .ok part)
      blocks parts) :
    messageSays serde index blocks =
      some (parts.filterMap UserPart.toolMessage? ++
        ordinaryMessage (parts.filterMap UserPart.ordinary?)) ↔
      blocks.all wholeBlock = true := by
  constructor
  · intro hmeans
    obtain ⟨saids, hsaids, hsame⟩ := Option.map_eq_some_iff.mp hmeans
    obtain ⟨-, hlength, hwhole⟩ := blocksSay hdistinct hparts (mapM_eq_some.mp hsaids)
    exact hwhole (List.append_inj hsame hlength).1
  · intro hwhole
    unfold messageSays
    rw [mapM_eq_some.mpr (blockSays_of_all hdistinct hparts hwhole)]
    rfl

end Blocks

section Messages
variable {serde : Serde} {messages out blocks : List Json} {message : Json} {i : Nat}

theorem share_of_message (h : convertMessages serde messages = .ok out)
    (hmessage : messages[i]? = some message) (hblocks : userBlocks? message = some blocks) :
    ∃ before parts after, out = before ++ (parts.filterMap UserPart.toolMessage? ++
        ordinaryMessage (parts.filterMap UserPart.ordinary?)) ++ after ∧
          before.length = chatPosition serde messages i ∧
      List.Forall₂ (fun block part => convertUserBlock serde i block = .ok part) blocks parts := by
  obtain ⟨-, -, between, before, next, share, last, after, -, hshare, -, rfl, hposition, -⟩ :=
    convertMessages_around h hmessage
  unfold userBlocks? at hblocks
  split_ifs at hblocks with hrole
  obtain ⟨content, hcontent, harray⟩ := Option.bind_eq_some_iff.mp hblocks
  obtain rfl := Json.asArray_eq_some.mp harray
  obtain ⟨object, rfl, hconverted⟩ := convertMessage_user hshare hrole
  rw [Json.get?_obj] at hcontent
  obtain ⟨text, htext, -⟩ | ⟨_, parts, hread, hparts, rfl⟩ := convertUserMessage_cases hconverted
  · rw [hcontent] at htext
    cases htext
  rw [hcontent] at hread
  cases hread
  exact ⟨before, parts, after, (List.append_assoc ..).symm, hposition.symm, hparts⟩

end Messages

section Cases

def calledMessages (elements : List Json) : List Json := [
  .obj [("role", .str "assistant"), ("content", .arr [
    .obj [("type", .str "tool_use"), ("id", .str "t1"), ("name", .str "read"),
      ("input", .obj [])]])],
  .obj [("role", .str "user"), ("content", .arr [
    .obj [("type", .str "tool_result"), ("tool_use_id", .str "t1"), ("content", .arr elements)]])]]

def calledConversation (text : String) : List Json := [
  .obj [("role", .str "assistant"), ("content", .null), ("tool_calls", .arr [
    .obj [("id", .str "t1"), ("type", .str "function"),
      ("function", .obj [("name", .str "read"), ("arguments", .str "{}")])]])],
  .obj [("role", .str "tool"), ("tool_call_id", .str "t1"), ("content", .str text)]]

end Cases

end Lobster.Anthropic
