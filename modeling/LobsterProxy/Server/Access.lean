import LobsterProxy.Config.Load
import LobsterProxy.Server.Error
import LobsterProxy.Session

/-! Who is let in: the key that a request presents, the routes that ask for one, and what a
server that has started answers. -/

namespace Lobster.Server
open Text Config

def constantTimeEq (a b : List UInt8) : Bool :=
  if a.length ≠ b.length then false
  else (a.zip b).foldl (fun acc (x, y) => acc ||| (x ^^^ y)) 0 = 0

def bearerKey (headers : HeaderMap) : Option String :=
  (((headers.get? "authorization").bind HeaderMap.toStr).bind
    (Text.stripPrefix "Bearer ".toList)).bind HeaderMap.trimmed

/-- The key that a request presents; a bearer credential counts only when there is no other. -/
def providedKey (headers : HeaderMap) : Option String :=
  headers.filled "x-api-key" <|> bearerKey headers

def unauthorized : ApiError := .authentication "invalid or missing API key"

def checkAuth (apiKey : Option String) (headers : HeaderMap) : Except ApiError Unit :=
  match apiKey with
  | none => .ok ()
  | some expected =>
    match providedKey headers with
    | some key =>
      if constantTimeEq (toUtf8 key.toList) (toUtf8 expected.toList) then
        .ok () else .error unauthorized
    | none => .error unauthorized

inductive Page where
  | messages
  | countTokens
  | responses
  | models
  | metrics
  | healthz
  | readyz
  | adminStatus
  deriving DecidableEq

namespace Page

/-- The handlers that begin with `check_auth`. -/
def guarded : Page → Bool
  | messages | countTokens | responses | models | adminStatus => true
  | metrics | healthz | readyz => false

/-- The handler of a page runs only for a request that is let in. -/
def answer {α : Type} (config : Config) (handler : Page → HeaderMap → α) (page : Page)
    (headers : HeaderMap) :
    Except ApiError α :=
  if page.guarded then (checkAuth config.server.apiKey headers).map fun _ => handler page headers
  else .ok (handler page headers)

end Page

section Compare

theorem foldl_or_eq_zero (pairs : List (UInt8 × UInt8)) (acc : UInt8) :
    pairs.foldl (fun acc (x, y) => acc ||| (x ^^^ y)) acc = 0 ↔
      acc = 0 ∧ ∀ p ∈ pairs, p.1 = p.2 := by
  induction pairs generalizing acc with
  | nil => simp
  | cons p pairs ih =>
    rw [List.foldl_cons, ih, UInt8.or_eq_zero_iff, UInt8.xor_eq_zero_iff, List.forall_mem_cons,
      and_assoc]

theorem eq_of_zip {a b : List UInt8} (hlength : a.length = b.length)
    (h : ∀ p ∈ a.zip b, p.1 = p.2) : a = b := by
  induction a generalizing b with
  | nil => exact (List.length_eq_zero_iff.mp hlength.symm).symm
  | cons x a ih =>
    cases b with
    | nil => cases hlength
    | cons y b =>
      obtain ⟨hhead, htail⟩ := List.forall_mem_cons.mp h
      rw [show x = y from hhead, ih (Nat.succ.inj hlength) htail]

theorem zip_self (a : List UInt8) : ∀ p ∈ a.zip a, p.1 = p.2 := by
  induction a with
  | nil => nofun
  | cons x a ih => exact List.forall_mem_cons.mpr ⟨rfl, ih⟩

/-- The comparison that does not stop early is equality. -/
theorem constantTimeEq_iff {a b : List UInt8} : constantTimeEq a b = true ↔ a = b := by
  unfold constantTimeEq
  split_ifs with hlength
  · constructor
    · nofun
    · rintro rfl
      exact absurd rfl hlength
  · rw [decide_eq_true_iff, foldl_or_eq_zero]
    constructor
    · exact fun h => eq_of_zip (not_not.mp hlength) h.2
    · rintro rfl
      exact ⟨rfl, zip_self a⟩

end Compare

section Admission
variable {apiKey : Option String} {headers : HeaderMap} {key : String} {config : Config}

theorem checkAuth_some (key : String) (headers : HeaderMap) : checkAuth (some key) headers =
    if providedKey headers = some key then .ok () else .error unauthorized := by
  unfold checkAuth
  dsimp only
  cases hprovided : providedKey headers with
  | none => rfl
  | some provided =>
    have hequal : constantTimeEq (toUtf8 provided.toList) (toUtf8 key.toList) = true ↔
        provided = key := by
      rw [constantTimeEq_iff, toUtf8_injective.eq_iff, String.toList_inj]
    simp only [hequal, Option.some.injEq]

theorem checkAuth_ok_iff :
    checkAuth apiKey headers = .ok () ↔ apiKey = none ∨
    ∃ key, apiKey = some key ∧ providedKey headers = some key := by
  cases apiKey with
  | none => exact iff_of_true rfl (.inl rfl)
  | some key =>
    rw [checkAuth_some]
    split_ifs with hprovided
    · exact iff_of_true rfl (.inr ⟨key, rfl, hprovided⟩)
    · refine iff_of_false nofun ?_
      rintro (hnone | ⟨other, hkey, hother⟩)
      · cases hnone
      · cases hkey
        exact hprovided hother

/-- A request is let in to its handler or turned away with one error. -/
theorem checkAuth_cases (apiKey : Option String) (headers : HeaderMap) :
    checkAuth apiKey headers = .ok () ∨ checkAuth apiKey headers = .error unauthorized := by
  cases apiKey with
  | none => exact .inl rfl
  | some key =>
    rw [checkAuth_some]
    split_ifs
    · exact .inl rfl
    · exact .inr rfl

variable {α : Type} (handler : Page → HeaderMap → α) (page : Page)

theorem answer_cases (config : Config) (headers : HeaderMap) :
    page.answer config handler headers = .ok (handler page headers) ∨
      page.answer config handler headers = .error unauthorized := by
  unfold Page.answer
  split_ifs
  · rcases checkAuth_cases config.server.apiKey headers with hcheck | hcheck
    · rw [hcheck]
      exact .inl rfl
    · rw [hcheck]
      exact .inr rfl
  · exact .inl rfl

theorem answer_ok_iff : page.answer config handler headers = .ok (handler page headers) ↔
    page.guarded = false ∨ checkAuth config.server.apiKey headers = .ok () := by
  unfold Page.answer
  split_ifs with hguarded
  · rcases checkAuth_cases config.server.apiKey headers with hcheck | hcheck
    · rw [hcheck]
      exact iff_of_true rfl (.inr rfl)
    · rw [hcheck]
      refine iff_of_false nofun ?_
      rintro (hopen | hok)
      · exact absurd hguarded (Bool.eq_false_iff.mp hopen)
      · cases hok
  · exact iff_of_true rfl (.inl (Bool.eq_false_iff.mpr hguarded))

/-- A server that has started answers a guarded page only for a request that presents its key, or
without any key on a loopback address; every other request is turned away with one error. -/
theorem started_admits (machine : Machine) (arguments : Arguments) (headers : HeaderMap)
    (h : start machine arguments = .ok config) :
    Sound config ∧
      (page.answer config handler headers = .ok (handler page headers) ∨
        page.answer config handler headers = .error unauthorized) ∧
      (page.answer config handler headers = .ok (handler page headers) ↔
        page.guarded = false ∨ (config.server.apiKey = none ∧ config.isLoopback = true) ∨
          ∃ key, config.server.apiKey = some key ∧ key ≠ "" ∧ providedKey headers = some key) := by
  have hsound := sound_of_start h
  refine ⟨hsound, answer_cases handler page config headers, ?_⟩
  rw [answer_ok_iff, checkAuth_ok_iff]
  refine or_congr_right (or_congr ?_ ?_)
  · refine (and_iff_left_of_imp fun hnone => ?_).symm
    rcases hsound.closed with hloopback | ⟨key, hkey, -⟩
    · exact hloopback
    · rw [hnone] at hkey
      cases hkey
  · refine exists_congr fun key => and_congr_right fun hkey => (and_iff_right ?_).symm
    rintro rfl
    exact hsound.apiKey hkey

def keyedMachine : Machine where
  exists? _ := false
  readToString _ := .error "not found"
  parse _ := .error "not found"
  authDir := "auth"
  var name := if name = "LOBSTERAI_PROXY_API_KEY" then some "sk-env" else none

theorem started_admits_public :
    let config := { builtIn "auth" with server := ⟨"0.0.0.0", 8090, some "sk-env"⟩ }
    Sound config ∧
      (Page.messages.answer config (fun _ _ => ()) [] = .ok () ∨
        Page.messages.answer config (fun _ _ => ()) [] = .error unauthorized) ∧
      (Page.messages.answer config (fun _ _ => ()) [] = .ok () ↔
        Page.messages.guarded = false ∨ (config.server.apiKey = none ∧ config.isLoopback = true) ∨
          ∃ key, config.server.apiKey = some key ∧ key ≠ "" ∧ providedKey [] = some key) :=
  started_admits (fun _ _ => ()) .messages keyedMachine ⟨none, some "0.0.0.0", none⟩ []
    (by decide +kernel)

end Admission

section Presenting
variable {headers : HeaderMap} {key : String} {value : List UInt8} {text : List Char}

/-- The header values that a client can send: no control characters but tabs. -/
def LegalHeaders (headers : HeaderMap) : Prop :=
  ∀ header ∈ headers, ∀ b ∈ header.2, (32 ≤ b ∧ b ≠ 127) ∨ b = 9

def isVisible (c : Char) : Bool := (32 ≤ c.toNat && c.toNat < 127) || c.toNat = 9

/-- A key of visible ASCII without white space around it. -/
structure Presentable (key : String) : Prop where
  nonempty : key ≠ ""
  visible : ∀ c ∈ key.toList, isVisible c = true
  trimmed : trim key.toList = key.toList

theorem visible_of_byte :
    ∀ n < 256, HeaderMap.isVisibleAscii (UInt8.ofNat n) = true →
      isVisible (Char.ofNat n) = true := by
  decide +kernel

theorem byte_of_visible : ∀ n < 127, isVisible (Char.ofNat n) = true →
    HeaderMap.isVisibleAscii (UInt8.ofNat n) = true ∧ (UInt8.ofNat n).toNat = n := by
  decide +kernel

theorem visible_lt {c : Char} (h : isVisible c = true) : c.toNat < 127 := by
  unfold isVisible at h
  simp only [Bool.or_eq_true, Bool.and_eq_true, decide_eq_true_eq] at h
  omega

theorem visible_of_toStr (h : HeaderMap.toStr value = some text) :
    ∀ c ∈ text, isVisible c = true := by
  unfold HeaderMap.toStr at h
  split_ifs at h with hvalue
  cases h
  intro c hc
  obtain ⟨b, hb, rfl⟩ := List.mem_map.mp hc
  have hvisible := List.all_eq_true.mp hvalue b hb
  rw [← @UInt8.ofNat_toNat b] at hvisible
  exact visible_of_byte b.toNat b.toNat_lt hvisible

theorem presentable_of_trimmed (hvisible : ∀ c ∈ text, isVisible c = true)
    (h : HeaderMap.trimmed text = some key) :
    Presentable key := by
  obtain ⟨hkey, hne⟩ := Option.filter_eq_some_iff.mp h
  obtain rfl := Option.some.inj hkey
  have hlist : (String.ofList (trim text)).toList = trim text := String.toList_ofList
  refine ⟨of_decide_eq_true hne, fun c hc => ?_, ?_⟩
  · rw [hlist] at hc
    have hsub : (trim text).Sublist text :=
      ((List.rdropWhile_prefix isWhitespace _).sublist).trans (List.dropWhile_sublist isWhitespace)
    exact hvisible c (hsub.mem hc)
  · rw [hlist]
    exact trimMatches_trimMatches isWhitespace text

theorem presentable_of_providedKey (h : providedKey headers = some key) : Presentable key := by
  unfold providedKey HeaderMap.filled at h
  rw [Option.orElse_eq_orElse, Option.orElse_eq_or] at h
  rcases Option.or_eq_some_iff.mp h with hown | ⟨-, hbearer⟩
  · obtain ⟨text, htext, hkey⟩ := Option.bind_eq_some_iff.mp hown
    obtain ⟨value, -, hvalue⟩ := Option.bind_eq_some_iff.mp htext
    exact presentable_of_trimmed (visible_of_toStr hvalue) hkey
  · obtain ⟨rest, hrest, hkey⟩ := Option.bind_eq_some_iff.mp hbearer
    obtain ⟨text, htext, hstrip⟩ := Option.bind_eq_some_iff.mp hrest
    obtain ⟨value, -, hvalue⟩ := Option.bind_eq_some_iff.mp htext
    obtain ⟨-, hdrop⟩ := Option.ite_none_right_eq_some.mp hstrip
    cases hdrop
    exact presentable_of_trimmed (fun c hc => visible_of_toStr hvalue c (List.mem_of_mem_drop hc))
      hkey

def keyHeader (key : String) : HeaderMap :=
  [("x-api-key", key.toList.map fun c => UInt8.ofNat c.toNat)]

theorem visible_bytes (h : Presentable key) : ∀ c ∈ key.toList,
    HeaderMap.isVisibleAscii (UInt8.ofNat c.toNat) = true ∧
    Char.ofNat (UInt8.ofNat c.toNat).toNat = c := by
  intro c hc
  have hvisible := h.visible c hc
  have hbyte :=
    byte_of_visible c.toNat (visible_lt hvisible) (by rw [Char.ofNat_toNat]; exact hvisible)
  exact ⟨hbyte.1, by rw [hbyte.2, Char.ofNat_toNat]⟩

theorem legal_keyHeader (h : Presentable key) : LegalHeaders (keyHeader key) := by
  intro header hheader b hb
  obtain rfl := List.mem_singleton.mp hheader
  obtain ⟨c, hc, rfl⟩ := List.mem_map.mp hb
  have hvisible := (visible_bytes h c hc).1
  unfold HeaderMap.isVisibleAscii at hvisible
  simp only [Bool.or_eq_true, Bool.and_eq_true, decide_eq_true_eq] at hvisible
  refine hvisible.imp (fun hrange => ⟨hrange.1, fun hdelete => ?_⟩) id
  rw [hdelete] at hrange
  exact absurd hrange.2 (by decide)

theorem providedKey_keyHeader (h : Presentable key) : providedKey (keyHeader key) = some key := by
  have hget : HeaderMap.get? (keyHeader key) "x-api-key" =
      some (key.toList.map fun c => UInt8.ofNat c.toNat) := rfl
  have hstr : HeaderMap.toStr (key.toList.map fun c => UInt8.ofNat c.toNat) = some key.toList := by
    unfold HeaderMap.toStr
    rw [if_pos, List.map_map]
    · refine congrArg some ((List.map_congr_left fun c hc => ?_).trans (List.map_id _))
      exact (visible_bytes h c hc).2
    · rw [List.all_map]
      exact List.all_eq_true.mpr fun c hc => (visible_bytes h c hc).1
  have htrim : HeaderMap.trimmed key.toList = some key := by
    unfold HeaderMap.trimmed
    rw [h.trimmed, String.ofList_toList]
    simp [h.nonempty]
  unfold providedKey HeaderMap.filled
  rw [hget, Option.bind_some, hstr, Option.bind_some, htrim]
  rfl

/-- Some client can get to a guarded page exactly when there is no key, or one that a header can
hold: a key with white space around it, or with other characters than visible ASCII, locks all
clients out. -/
theorem someone_admitted_iff {α : Type} (config : Config) (handler : Page → HeaderMap → α)
    (page : Page) :
    (∃ headers : HeaderMap, LegalHeaders headers ∧ page.answer config handler headers =
      .ok (handler page headers)) ↔
      page.guarded = false ∨ config.server.apiKey = none ∨
      ∃ key, config.server.apiKey = some key ∧ Presentable key := by
  simp only [answer_ok_iff, checkAuth_ok_iff]
  constructor
  · rintro ⟨headers, -, hopen | hnone | ⟨key, hkey, hprovided⟩⟩
    · exact .inl hopen
    · exact .inr (.inl hnone)
    · exact .inr (.inr ⟨key, hkey, presentable_of_providedKey hprovided⟩)
  · rintro (hopen | hnone | ⟨key, hkey, hpresentable⟩)
    · exact ⟨[], nofun, .inl hopen⟩
    · exact ⟨[], nofun, .inr (.inl hnone)⟩
    · exact ⟨keyHeader key, legal_keyHeader hpresentable,
        .inr (.inr ⟨key, hkey, providedKey_keyHeader hpresentable⟩)⟩

end Presenting
end Lobster.Server
