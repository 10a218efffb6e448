import LobsterProxy.Base.Percent
import LobsterProxy.Config
import Mathlib.Data.Bool.AllAny

/-! The browser's answer to a login: values are percent-encoded into a query, and the
callback takes the code and the state out of the query that it is called with. -/

namespace Lobster.Upstream
open Text Percent Config

/-- Letters, digits and the marks that are safe in a query value. -/
def isSafe (byte : UInt8) : Bool :=
  (65 ≤ byte && byte ≤ 90) || (97 ≤ byte && byte ≤ 122) || (48 ≤ byte && byte ≤ 57) ||
    byte = 45 || byte = 95 || byte = 46 || byte = 126 || byte = 47 || byte = 58

def urlencode (value : String) : String := String.ofList (encode isSafe (toUtf8 value.toList))

/-- `str::from_utf8`: the text whose bytes they are, if there is one. -/
def fromUtf8 (bytes : List UInt8) : Option (List Char) :=
  let text := fromUtf8Lossy bytes
  if toUtf8 text = bytes then some text else none

/-- The bytes of a value whose escapes are read; what is no escape stands for itself. -/
def unescape : List UInt8 → List UInt8
  | [] => []
  -- a percent sign needs two more bytes
  | 37 :: high :: low :: rest =>
    match fromStrRadix ((fromUtf8 [high, low]).getD []) with
    | some value => UInt8.ofNat value :: unescape rest
    | none => 37 :: unescape (high :: low :: rest)
  | 43 :: rest => 32 :: unescape rest
  | byte :: rest => byte :: unescape rest

def urldecode (value : String) : String :=
  String.ofList (fromUtf8Lossy (unescape (toUtf8 value.toList)))

/-- `str::split_once` at a character. -/
def splitOnce (c : Char) (text : List Char) : Option (List Char × List Char) :=
  match text.span fun d => d ≠ c with
  | (_, []) => none
  | (before, _ :: after) => some (before, after)

def codeKey : List Char := ['c', 'o', 'd', 'e']

def stateKey : List Char := ['s', 't', 'a', 't', 'e']

structure CallbackQuery where
  code : String
  state : String
  deriving DecidableEq, Repr

namespace CallbackQuery

/-- A pair without a separator is a key with an empty value. -/
def field (pair : List Char) : List Char × List Char := (splitOnce '=' pair).getD (pair, [])

/-- A later field takes the place of an earlier one, other keys are passed over. -/
def read (query : CallbackQuery) (pair : List Char) : CallbackQuery :=
  let (key, value) := field pair
  if key = codeKey then { query with code := urldecode (String.ofList value) }
  else if key = stateKey then { query with state := urldecode (String.ofList value) }
  else query

def ofRequest (request : List Char) : CallbackQuery :=
  let target := (splitWhitespace request)[1]?.getD []
  let query := (target.splitOn '?')[1]?.getD []
  (query.splitOn '&').foldl read ⟨"", ""⟩

end CallbackQuery

/-- What the browser is told, and the code or what is wrong. -/
def callbackAnswer (expected : String) (query : CallbackQuery) : String × Except String String :=
  if query.code = "" then
    ("HTTP/1.1 400 Bad Request\r\nContent-Type: text/html; charset=utf-8\r\n\r\n" ++
      "<h2>login callback invalid</h2>",
      .error "missing code")
  else if query.state ≠ expected then
    ("HTTP/1.1 400 Bad Request\r\nContent-Type: text/html; charset=utf-8\r\n\r\n" ++
      "<h2>state mismatch</h2>",
      .error "state mismatch")
  else
    ("HTTP/1.1 200 OK\r\nContent-Type: text/html; charset=utf-8\r\nContent-Length: 47\r\n\r\n" ++
      "<h2>login ok - you can close this window</h2>", .ok query.code)

/-- What is read of the request: up to the end of its head, to a limit, or to the end of the
stream or an error. There is no limit of time. -/
def readRequest : List UInt8 → List (Except String (List UInt8)) → Option (List UInt8)
  -- the connection stays open and nothing more comes
  | _, [] => none
  | buffer, .error _ :: _ => some buffer
  | buffer, .ok chunk :: rest =>
    if chunk = [] then some buffer
    else
      let buffer := buffer ++ chunk
      if contains buffer [13, 10, 13, 10] ∨ 16384 < buffer.length then some buffer
      else readRequest buffer rest

def handleCallback (expected : String) (reads : List (Except String (List UInt8))) :
    Option (String × Except String String) :=
  (readRequest [] reads).map fun request =>
    callbackAnswer expected (.ofRequest (fromUtf8Lossy request))

section Values

theorem forall_byte {p : UInt8 → Nat → Prop} (h : ∀ n < 256, p (UInt8.ofNat n) n) (b : UInt8) :
    p b b.toNat := by
  have hb := h b.toNat b.toNat_lt
  rw [UInt8.ofNat_toNat] at hb
  exact hb

theorem isSafe_ascii {b : UInt8} (h : isSafe b = true) : b.toNat < 128 ∧ b ≠ 37 ∧ b ≠ 43 :=
  @forall_byte (fun b n => isSafe b = true → n < 128 ∧ b ≠ 37 ∧ b ≠ 43) (by decide +kernel) b h

theorem isSafe_plain {b : UInt8} (h : isSafe b = true) :
    Char.ofNat b.toNat ∉ ['?', '&', '=', '#', '+', '%'] ∧
      isWhitespace (Char.ofNat b.toNat) = false :=
  @forall_byte (fun b n => isSafe b = true → Char.ofNat n ∉ ['?', '&', '=', '#', '+', '%'] ∧
    isWhitespace (Char.ofNat n) = false) (by decide +kernel) b h

theorem unescape_cons {b : UInt8} (hpercent : b ≠ 37) (hplus : b ≠ 43) (rest : List UInt8) :
    unescape (b :: rest) = b :: unescape rest := by
  rw [unescape]
  · exact fun high low rest h _ => hpercent h
  · exact hplus

def digitByte (n : Nat) : UInt8 := UInt8.ofNat (digit n).toNat

theorem fromStrRadix_digits (b : UInt8) :
    toUtf8 (escape b) = [37, digitByte (b.toNat / 16), digitByte (b.toNat % 16)] ∧
      fromStrRadix ((fromUtf8 [digitByte (b.toNat / 16), digitByte (b.toNat % 16)]).getD []) =
        some b.toNat :=
  @forall_byte (fun b n => toUtf8 (escape b) = [37, digitByte (n / 16), digitByte (n % 16)] ∧
    fromStrRadix ((fromUtf8 [digitByte (n / 16), digitByte (n % 16)]).getD []) = some n)
      (by decide +kernel) b

theorem decodes_unescape : Decodes isSafe unescape where
  nil := rfl
  keep b rest h := unescape_cons (isSafe_ascii h).2.1 (isSafe_ascii h).2.2 rest
  unescape b rest := by
    obtain ⟨hbytes, hread⟩ := fromStrRadix_digits b
    rw [hbytes, List.cons_append, List.cons_append, List.singleton_append, unescape, hread]
    dsimp only
    rw [UInt8.ofNat_toNat]

theorem urldecode_urlencode (value : String) : urldecode (urlencode value) = value := by
  unfold urldecode urlencode
  rw [String.toList_ofList, decodes_unescape.decode_encode fun b h => (isSafe_ascii h).1,
    fromUtf8Lossy_toUtf8,
    String.ofList_toList]

theorem plain_of_urlencode {value : String} {c : Char} (h : c ∈ (urlencode value).toList) :
    c ∉ ['?', '&', '=', '#', '+'] ∧ isWhitespace c = false := by
  have hdigit : ∀ d ∈ hexDigits, d ∉ ['?', '&', '=', '#', '+'] ∧ isWhitespace d = false :=
    List.all_iff_forall_prop.mp (by decide +kernel)
  unfold urlencode at h
  rw [String.toList_ofList] at h
  rcases mem_encode h with ⟨b, hb, rfl⟩ | rfl | hc
  · obtain ⟨hplain, hblank⟩ := isSafe_plain hb
    exact ⟨fun hmem => hplain (List.mem_append_left ['%'] hmem), hblank⟩
  · decide
  · exact hdigit c hc

theorem escape_of_urlencode {value : String} {before after : List Char}
    (h : (urlencode value).toList = before ++ '%' :: after) :
    ∃ high low rest, after = high :: low :: rest ∧ high ∈ hexDigits ∧ low ∈ hexDigits := by
  unfold urlencode at h
  rw [String.toList_ofList] at h
  refine escape_of_encode (fun b hb hpercent => (isSafe_plain hb).1 ?_) h
  rw [hpercent]
  decide

end Values

section Query
open CallbackQuery

/-- A pair as the query has it: nothing in it ends the pair, the query or the target. -/
def IsPair (pair : List Char) : Prop := ∀ c ∈ pair, c ≠ '&' ∧ c ≠ '?' ∧ isWhitespace c = false

instance (pair : List Char) : Decidable (IsPair pair) :=
  List.decidableBAll _ pair

def pairOf (key : List Char) (value : String) : List Char := key ++ '=' :: (urlencode value).toList

/-- The first line of a request and what comes after its target. -/
def requestLine (method path : List Char) (pairs : List (List Char)) (tail : List Char) :
    List Char :=
  method ++ ' ' :: ((path ++ '?' :: ['&'].intercalate pairs) ++ ' ' :: tail)

variable {method path tail key : List Char} {pairs earlier later : List (List Char)}
    {pair : List Char} {value : String}

theorem splitOnce_append_cons {c : Char} {before : List Char} (h : c ∉ before) (after : List Char) :
    splitOnce c (before ++ c :: after) = some (before, after) := by
  have hbefore : ∀ d ∈ before, decide (d ≠ c) = true := by
    rintro d hd
    refine decide_eq_true ?_
    rintro rfl
    exact h hd
  unfold splitOnce
  rw [List.span_eq_takeWhile_dropWhile, List.takeWhile_append_of_pos hbefore,
    List.dropWhile_append_of_pos hbefore]
  simp

theorem field_pairOf (hkey : '=' ∉ key) (value : String) :
    field (pairOf key value) = (key, (urlencode value).toList) := by
  unfold field pairOf
  rw [splitOnce_append_cons hkey]
  rfl

theorem isPair_pairOf (h : IsPair key) (value : String) : IsPair (pairOf key value) := by
  intro c hc
  rcases List.mem_append.mp hc with hc | hc
  · exact h c hc
  rcases List.mem_cons.mp hc with rfl | hc
  · decide
  · obtain ⟨hplain, hblank⟩ := plain_of_urlencode hc
    refine ⟨?_, ?_, hblank⟩ <;> rintro rfl <;> simp at hplain

theorem mem_query {c : Char} (h : c ∈ ['&'].intercalate pairs) :
    c = '&' ∨ ∃ pair ∈ pairs, c ∈ pair := by
  induction pairs with
  | nil => cases h
  | cons pair pairs ih =>
    cases pairs with
    | nil => exact .inr ⟨pair, List.mem_singleton_self _, by simpa using h⟩
    | cons next rest =>
      rw [List.intercalate_cons_cons] at h
      rcases List.mem_append.mp h with h | h
      · rcases List.mem_append.mp h with h | h
        · exact .inr ⟨pair, List.mem_cons_self, h⟩
        · exact .inl (List.mem_singleton.mp h)
      · rcases ih h with hand | ⟨other, hother, hc⟩
        · exact .inl hand
        · exact .inr ⟨other, List.mem_cons_of_mem _ hother, hc⟩

theorem ofRequest_requestLine (hmethod : method ≠ [])
    (hword : ∀ c ∈ method, isWhitespace c = false)
    (hpath : ∀ c ∈ path, c ≠ '?' ∧ isWhitespace c = false) (hpairs : ∀ pair ∈ pairs, IsPair pair)
      (hne : pairs ≠ []) :
    ofRequest (requestLine method path pairs tail) = pairs.foldl CallbackQuery.read ⟨"", ""⟩ := by
  have hquery : ∀ c ∈ ['&'].intercalate pairs, c ≠ '?' ∧ isWhitespace c = false := by
    intro c hc
    rcases mem_query hc with rfl | ⟨pair, hpair, hc⟩
    · decide
    · exact (hpairs pair hpair c hc).2
  have htarget : ∀ c ∈ path ++ '?' :: ['&'].intercalate pairs, isWhitespace c = false := by
    intro c hc
    rcases List.mem_append.mp hc with hc | hc
    · exact (hpath c hc).2
    rcases List.mem_cons.mp hc with rfl | hc
    · decide
    · exact (hquery c hc).2
  have hwords : splitWhitespace (requestLine method path pairs tail) =
      method :: (path ++ '?' :: ['&'].intercalate pairs) :: splitWhitespace tail := by
    unfold splitWhitespace requestLine
    rw [List.splitOnP_append_cons_of_forall_mem hword ' ' (by decide),
      List.splitOnP_append_cons_of_forall_mem htarget ' ' (by decide),
      List.filter_cons_of_pos (by simpa using hmethod), List.filter_cons_of_pos (by simp)]
  have hparts : (path ++ '?' :: ['&'].intercalate pairs).splitOn '?' =
      [path, ['&'].intercalate pairs] := by
    rw [List.splitOn_append_cons_self_of_not_mem fun hmem => (hpath '?' hmem).1 rfl,
      List.splitOn_eq_singleton fun hmem => (hquery '?' hmem).1 rfl]
  have hsplit : (['&'].intercalate pairs).splitOn '&' = pairs :=
    List.splitOn_intercalate '&' (fun pair hpair hmem => (hpairs pair hpair '&' hmem).1 rfl) hne
  unfold ofRequest
  rw [hwords]
  dsimp only [List.getElem?_cons_succ, List.getElem?_cons_zero, Option.getD_some]
  rw [hparts]
  dsimp only [List.getElem?_cons_succ, List.getElem?_cons_zero, Option.getD_some]
  rw [hsplit]

theorem foldl_read {α : Type} {get : CallbackQuery → α}
    (h : ∀ pair ∈ pairs, ∀ query : CallbackQuery, get (query.read pair) = get query)
      (query : CallbackQuery) :
    get (pairs.foldl CallbackQuery.read query) = get query := by
  induction pairs generalizing query with
  | nil => rfl
  | cons pair pairs ih =>
    obtain ⟨hpair, hrest⟩ := List.forall_mem_cons.mp h
    rw [List.foldl_cons, ih hrest, hpair]

theorem code_read (h : (field pair).1 ≠ codeKey) (query : CallbackQuery) :
    (query.read pair).code = query.code := by
  unfold CallbackQuery.read
  dsimp only
  rw [if_neg h]
  split_ifs <;> rfl

theorem state_read (h : (field pair).1 ≠ stateKey) (query : CallbackQuery) :
    (query.read pair).state = query.state := by
  unfold CallbackQuery.read
  dsimp only
  split_ifs <;> rfl

theorem code_read_pairOf (value : String) (query : CallbackQuery) :
    (query.read (pairOf codeKey value)).code = value := by
  unfold CallbackQuery.read
  rw [field_pairOf (by decide)]
  dsimp only
  rw [if_pos rfl, String.ofList_toList, urldecode_urlencode]

theorem state_read_pairOf (value : String) (query : CallbackQuery) :
    (query.read (pairOf stateKey value)).state = value := by
  unfold CallbackQuery.read
  rw [field_pairOf (by decide)]
  dsimp only
  rw [if_neg (by decide), if_pos rfl, String.ofList_toList, urldecode_urlencode]

theorem code_foldl (hlater : ∀ pair ∈ later, (field pair).1 ≠ codeKey) (value : String)
    (query : CallbackQuery) :
    ((earlier ++ pairOf codeKey value :: later).foldl CallbackQuery.read query).code = value := by
  rw [List.foldl_append, List.foldl_cons,
    foldl_read fun pair hpair => code_read (hlater pair hpair),
    code_read_pairOf]

theorem state_foldl (hlater : ∀ pair ∈ later, (field pair).1 ≠ stateKey) (value : String)
    (query : CallbackQuery) :
    ((earlier ++ pairOf stateKey value :: later).foldl CallbackQuery.read query).state = value := by
  rw [List.foldl_append, List.foldl_cons,
    foldl_read fun pair hpair => state_read (hlater pair hpair),
    state_read_pairOf]

end Query

/-- Values are read back from their encodings, these have nothing in them that a query is
split at, and the callback gets them back out of the query that they stand in. -/
theorem urlencode_recovered :
    (∀ value, urldecode (urlencode value) = value) ∧
    (∀ value, (∀ c ∈ (urlencode value).toList, c ∉ ['?', '&', '=', '#', '+']) ∧
      ∀ before after, (urlencode value).toList = before ++ '%' :: after →
        ∃ high low rest, after = high :: low :: rest ∧ high ∈ hexDigits ∧ low ∈ hexDigits) ∧
    ∀ (value : String) (method path : List Char) (earlier later : List (List Char))
      (tail : List Char),
      method ≠ [] → (∀ c ∈ method, isWhitespace c = false) →
      (∀ c ∈ path, c ≠ '?' ∧ isWhitespace c = false) →
      (∀ pair ∈ earlier ++ later, IsPair pair) →
      ((∀ pair ∈ later, (CallbackQuery.field pair).1 ≠ codeKey) →
        (CallbackQuery.ofRequest
          (requestLine method path (earlier ++ pairOf codeKey value :: later) tail)).code = value) ∧
      ((∀ pair ∈ later, (CallbackQuery.field pair).1 ≠ stateKey) →
        (CallbackQuery.ofRequest
          (requestLine method path
            (earlier ++ pairOf stateKey value :: later) tail)).state = value) := by
  refine ⟨urldecode_urlencode, fun value => ⟨?_, fun before after h => escape_of_urlencode h⟩, ?_⟩
  · exact fun c hc => (plain_of_urlencode hc).1
  intro value method path earlier later tail hmethod hword hpath hpairs
  have hall {key : List Char} (hkey : IsPair key) :
      ∀ pair ∈ earlier ++ pairOf key value :: later, IsPair pair := by
    intro pair hpair
    rcases List.mem_append.mp hpair with hpair | hpair
    · exact hpairs pair (List.mem_append_left _ hpair)
    rcases List.mem_cons.mp hpair with rfl | hpair
    · exact isPair_pairOf hkey value
    · exact hpairs pair (List.mem_append_right _ hpair)
  constructor
  · intro hlater
    rw [ofRequest_requestLine hmethod hword hpath (hall (by decide)) (by simp), code_foldl hlater]
  · intro hlater
    rw [ofRequest_requestLine hmethod hword hpath (hall (by decide)) (by simp), state_foldl hlater]

theorem urlencode_recovered_separators :
    (CallbackQuery.ofRequest
      (requestLine ['G', 'E', 'T'] ['/', 'c', 'b'] ([] ++ pairOf codeKey "a&b=1 +\u00fc" ::
      [pairOf stateKey "0f"]) ['H', 'T', 'T', 'P'])).code = "a&b=1 +\u00fc" :=
  (urlencode_recovered.2.2 "a&b=1 +\u00fc" ['G', 'E', 'T'] ['/', 'c', 'b'] [] [pairOf stateKey "0f"]
    ['H', 'T', 'T', 'P'] (by decide) (List.all_iff_forall_prop.mp (by decide))
    (List.all_iff_forall_prop.mp (by decide)) (by decide +kernel)).1 (by decide +kernel)

section Callback
variable {expected code : String} {query : CallbackQuery}

/-- Only a query with a code and the state of the login is accepted. -/
theorem callbackAnswer_eq_ok : (callbackAnswer expected query).2 = .ok code ↔
    query.code = code ∧ code ≠ "" ∧ query.state = expected := by
  unfold callbackAnswer
  split_ifs with hcode hstate
  · constructor
    · rintro ⟨⟩
    · rintro ⟨rfl, hne, -⟩
      exact absurd hcode hne
  · constructor
    · rintro ⟨⟩
    · rintro ⟨-, -, hsame⟩
      exact absurd hsame hstate
  · constructor
    · rintro ⟨rfl⟩
      exact ⟨rfl, hcode, not_not.mp hstate⟩
    · rintro ⟨rfl, -, -⟩
      rfl

/-- A browser that comes back with the code and the state of the login is accepted. -/
theorem handleCallback_accepts {method path tail : List Char}
    {reads : List (Except String (List UInt8))}
    (hmethod : method ≠ []) (hword : ∀ c ∈ method, isWhitespace c = false)
    (hpath : ∀ c ∈ path, c ≠ '?' ∧ isWhitespace c = false)
    (hread : readRequest [] reads = some
      (toUtf8 (requestLine method path [pairOf codeKey code, pairOf stateKey expected] tail)))
    (hcode : code ≠ "") : (handleCallback expected reads).map Prod.snd = some (.ok code) := by
  have hpairs : ∀ pair ∈ [pairOf codeKey code, pairOf stateKey expected], IsPair pair := by
    intro pair hpair
    rcases List.mem_cons.mp hpair with rfl | hpair
    · exact isPair_pairOf (by decide) code
    · obtain rfl := List.mem_singleton.mp hpair
      exact isPair_pairOf (by decide) expected
  unfold handleCallback
  rw [hread, Option.map_some, Option.map_some, fromUtf8Lossy_toUtf8,
    ofRequest_requestLine hmethod hword hpath hpairs (by simp)]
  refine congrArg some (callbackAnswer_eq_ok.mpr ⟨?_, hcode, state_read_pairOf expected _⟩)
  have hlater : ∀ pair ∈ [pairOf stateKey expected], (CallbackQuery.field pair).1 ≠ codeKey := by
    intro pair hpair
    rw [List.mem_singleton.mp hpair, field_pairOf (by decide)]
    show stateKey ≠ codeKey
    decide
  exact @code_foldl [] _ hlater code _

end Callback

end Lobster.Upstream
