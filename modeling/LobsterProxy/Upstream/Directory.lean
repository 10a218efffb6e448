import LobsterProxy.Base.Fragment
import LobsterProxy.Base.Publishing
import LobsterProxy.Upstream.Operations
import LobsterProxy.Upstream.Persistence
import LobsterProxy.Upstream.Selection
import Mathlib.Data.String.Basic

/-! The managed directory: credential files are replaced through temporary files, of which stale
ones are removed, and the pool is brought in line with what is listed. -/

namespace Lobster.Upstream
open Publishing Text

/-- What is known of a file beside its content. -/
structure Stat where
  /-- It is a link to a regular file. -/
  link : Bool
  /-- Seconds since the epoch. -/
  modified : Nat
  deriving DecidableEq, Repr

/-- The files by their names, in the order in which the entries are read. -/
abbrev Directory := Files String UInt8 Stat

abbrev Disk := Publishing.State String UInt8 Stat

section Names

def credentialPrefix : List Char := ['l', 'o', 'b', 's', 't', 'e', 'r', 'a', 'i', '-']

def credentialSuffix : List Char := ['.', 'j', 's', 'o', 'n']

def tempFilePrefix : List Char := ['.', 'c', 'r', 'e', 'd', 'e', 'n', 't', 'i', 'a', 'l', '-']

def tempFileSuffix : List Char := ['.', 't', 'm', 'p']

def isCredentialName (name : String) : Bool :=
  credentialPrefix.isPrefixOf name.toList && credentialSuffix.isSuffixOf name.toList

def isAsciiHexdigit (c : Char) : Bool := c.isDigit || ('a' ≤ c && c ≤ 'f') || ('A' ≤ c && c ≤ 'F')

/-- A name of the exact shape of a temporary file. -/
def isTempName (name : String) : Bool :=
  match (stripPrefix tempFilePrefix name.toList).bind (stripSuffix tempFileSuffix) with
  | some id => len id = 16 && id.all isAsciiHexdigit
  | none => false

def hexDigit (n : Nat) : Char := Nat.digitChar n

def randomHex16 (bytes : Vector UInt8 8) : List Char :=
  bytes.toList.flatMap fun b => [hexDigit (b.toNat / 16), hexDigit (b.toNat % 16)]

def tempName (random : Vector UInt8 8) : String :=
  String.ofList (tempFilePrefix ++ randomHex16 random ++ tempFileSuffix)

theorem hexDigit_sound :
    ∀ n < 16, isAsciiHexdigit (hexDigit n) = true ∧ (hexDigit n).utf8Size = 1 := by decide

theorem mem_randomHex16 {random : Vector UInt8 8} {c : Char} (h : c ∈ randomHex16 random) :
    isAsciiHexdigit c = true ∧ c.utf8Size = 1 := by
  obtain ⟨b, -, hc⟩ := List.mem_flatMap.mp h
  have hlow : b.toNat % 16 < 16 := Nat.mod_lt _ (by decide)
  have hhigh : b.toNat / 16 < 16 := Nat.div_lt_of_lt_mul (UInt8.toNat_lt b)
  rcases List.mem_pair.mp hc with rfl | rfl
  · exact hexDigit_sound _ hhigh
  · exact hexDigit_sound _ hlow

theorem len_randomHex16 (random : Vector UInt8 8) : len (randomHex16 random) = 16 := by
  have hones : (randomHex16 random).map Char.utf8Size =
      List.replicate (randomHex16 random).length 1 :=
    List.map_eq_replicate_iff.mpr fun c hc => (mem_randomHex16 hc).2
  have hlength : (randomHex16 random).length = 16 := by
    unfold randomHex16
    rw [List.length_flatMap]
    simp
  unfold len
  rw [hones, hlength]
  rfl

theorem isTempName_tempName (random : Vector UInt8 8) : isTempName (tempName random) = true := by
  unfold isTempName tempName
  rw [String.toList_ofList, List.append_assoc, stripPrefix_append, Option.bind_some,
    stripSuffix_append]
  dsimp only
  rw [len_randomHex16, List.all_eq_true.mpr fun c hc => (mem_randomHex16 hc).1]
  rfl

theorem isTempName_of_credential {name : String} (h : isCredentialName name = true) :
    isTempName name = false := by
  have hlead := List.isPrefixOf_iff_prefix.mp (Bool.and_eq_true_iff.mp h).1
  have hnot : ¬ tempFilePrefix <+: name.toList := fun htemp => by
    rcases List.prefix_or_prefix_of_prefix hlead htemp with hcross | hcross
    · exact absurd hcross (by decide)
    · exact absurd hcross (by decide)
  unfold isTempName stripPrefix
  rw [if_neg (fun hprefix => hnot (List.isPrefixOf_iff_prefix.mp hprefix))]
  rfl

end Names

section Directory

def Directory.isFile (dir : Directory) (name : String) : Bool := decide (name ∈ dir)

def listCredentialFiles (dir : Directory) : List String :=
  (dir.keys.filter isCredentialName).insertionSort (· ≤ ·)

def dayAsSecs : Nat := 86400

/-- The files that look like leftovers; one that is modified in the future has no age. -/
def staleTempFiles (now : Nat) (dir : Directory) : List String :=
  (dir.entries.filter fun e => isTempName e.1 && !e.2.note.link &&
    (e.2.note.modified ≤ now && dayAsSecs ≤ now - e.2.note.modified)).map Sigma.fst

/-- Some files may refuse to be removed. -/
def cleanupStaleTempFiles (now : Nat) (refused : String → Bool) (dir : Directory) :
    Nat × Directory :=
  let removed := (staleTempFiles now dir).filter fun name => !refused name
  (removed.length, State.removeAll removed dir)

def atomicWrite (pretty : Json → List UInt8) (random : Vector UInt8 8) (now : Nat) (name : String)
    (value : Json) (dir : Directory) : Directory :=
  let tmp := tempName random
  let dir := dir.insert tmp ⟨[], false, now⟩
  let dir := dir.insert tmp ⟨pretty value, false, now⟩
  (dir.erase tmp).insert name ⟨pretty value, false, now⟩

end Directory

section Happenings

/-- What happens in the directory: the steps of the writes, some of which fail or are cut off by
the end of a process, and the sweeps. -/
inductive Happening where
  | create (i : ℕ) (random : Vector UInt8 8) (name : String) (value : Json) (now : Nat)
  | write (i count now : Nat)
  | rename (i : ℕ)
  | renameRefused (i : ℕ)
  | abandon (i : ℕ)
  | cleanup (now : Nat) (refused : String → Bool)

variable (pretty : Json → List UInt8)

namespace Happening

def event (dir : Directory) : Happening → Event String UInt8 Stat
  | create i random name value now => .create i (tempName random) name (pretty value) ⟨false, now⟩
  | write i count now => .write i count ⟨false, now⟩
  | rename i => .rename i
  | renameRefused i => .undo i
  | abandon i => .abandon i
  | cleanup now refused => .sweep ((staleTempFiles now dir).filter fun name => !refused name)

def perform (happening : Happening) (s : Disk) : Disk := (happening.event pretty s.files).perform s

/-- Each write is one of a credential, and draws a name that no other write in progress has. -/
def Proper (happening : Happening) (s : Disk) : Prop :=
  match happening with
  | create i random name _ _ => isCredentialName name = true ∧ s.writers i = none ∧
    ∀ j w, s.writers j = some w → w.temp ≠ tempName random
  | _ => True

end Happening

def eventsOf : List Happening → Disk → List (Event String UInt8 Stat)
  | [], _ => []
  | happening :: happenings, s =>
    happening.event pretty s.files :: eventsOf happenings (happening.perform pretty s)

variable {pretty} {s : Disk} {happenings : List Happening} {dir : Directory}

theorem run_eventsOf : Runs.run Event.perform (eventsOf pretty happenings s) s =
    Runs.run (Happening.perform pretty) happenings s := by
  induction happenings generalizing s with
  | nil => rfl
  | cons happening happenings ih => exact ih

theorem mem_staleTempFiles {now : Nat} {name : String} (h : name ∈ staleTempFiles now dir) :
    isTempName name = true := by
  obtain ⟨e, he, rfl⟩ := List.mem_map.mp h
  have hstale := (List.mem_filter.mp he).2
  rw [Bool.and_assoc, Bool.and_eq_true_iff] at hstale
  exact hstale.1

theorem proper_event {happening : Happening} (h : happening.Proper s) :
    (happening.event pretty s.files).Proper isTempName s := by
  cases happening with
  | create i random name value now =>
    exact ⟨isTempName_tempName random, isTempName_of_credential h.1, h.2⟩
  | cleanup now refused => exact fun name hname => mem_staleTempFiles (List.mem_filter.mp hname).1
  | _ => trivial

theorem meets_eventsOf (h : Runs.Meets (Happening.perform pretty) Happening.Proper happenings s) :
    Runs.Meets Event.perform (Event.Proper isTempName) (eventsOf pretty happenings s) s := by
  induction happenings generalizing s with
  | nil => trivial
  | cons happening happenings ih => exact ⟨proper_event h.1, ih h.2⟩

theorem run_atomicWrite (random : Vector UInt8 8) (now : Nat) (name : String) (value : Json)
    (dir : Directory) :
    Runs.run (Happening.perform pretty)
      [.create 0 random name value now, .write 0 (pretty value).length now, .rename 0]
      (.idle dir) = .idle (atomicWrite pretty random now name value dir) := by
  have hwriters :
      Function.update
      (Function.update
      (Function.update (fun _ : ℕ => (none : Option (Publishing.Writer String UInt8)))
      0 (some ⟨tempName random, name, pretty value, 0⟩)) 0
        (some ⟨tempName random, name, pretty value,
      0 + (pretty value).length⟩)) 0 none = fun _ => none := by
    rw [Function.update_idem, Function.update_idem]
    exact Function.update_eq_self 0 _
  unfold State.idle atomicWrite
  simp only [Runs.run_cons, Runs.run_nil, Happening.perform, Happening.event, Event.perform,
    State.withWriter, State.enter, State.advance, Function.update_self, AList.lookup_insert,
    State.publish, Writer.after, State.leave]
  rw [if_neg (by omega), hwriters, List.drop_zero, List.nil_append, List.take_length]

theorem mem_listCredentialFiles {name : String} :
    name ∈ listCredentialFiles dir ↔ name ∈ dir ∧ isCredentialName name = true := by
  unfold listCredentialFiles
  rw [List.mem_insertionSort, List.mem_filter]
  exact Iff.rfl

theorem sound_happenings (h : Sound isTempName s)
    (hproper : Runs.Meets (Happening.perform pretty) Happening.Proper happenings s) :
    Sound isTempName (Runs.run (Happening.perform pretty) happenings s) := by
  rw [← run_eventsOf]
  exact sound_run h (meets_eventsOf hproper)

theorem content_happenings
    (hproper : Runs.Meets (Happening.perform pretty) Happening.Proper happenings (.idle dir))
    {name : String} (hname : isTempName name = false) :
    content (Runs.run (Happening.perform pretty) happenings (.idle dir)).files name =
      replaced name (publications (eventsOf pretty happenings (.idle dir)) (.idle dir))
        (content dir name) := by
  rw [← run_eventsOf]
  exact content_run (sound_idle isTempName dir) (meets_eventsOf hproper) hname

theorem isSome_content {name : String} : (content dir name).isSome = true ↔ name ∈ dir := by
  unfold content
  rw [Option.isSome_map]
  exact AList.lookup_isSome

theorem mem_listCredentialFiles_congr {dir' : Directory} {name : String}
    (h : content dir name = content dir' name) :
    name ∈ listCredentialFiles dir ↔ name ∈ listCredentialFiles dir' := by
  rw [mem_listCredentialFiles, mem_listCredentialFiles, ← isSome_content, ← isSome_content, h]

/-- Whatever happens in the directory, in whatever order and cut off at whatever step, what is
seen under the names of credentials is a run of whole replacements, and just these are listed. -/
theorem directory_replaced
    (hproper : Runs.Meets (Happening.perform pretty) Happening.Proper happenings (.idle dir)) :
    let after := (Runs.run (Happening.perform pretty) happenings (.idle dir)).files
    let seen :=
      fun name => replaced name (publications (eventsOf pretty happenings (.idle dir)) (.idle dir))
      (content dir name)
    (∀ name, isTempName name = false → content after name = seen name) ∧
      ∀ name, name ∈ listCredentialFiles after ↔ isCredentialName name = true ∧
      (seen name).isSome = true := by
  intro after seen
  have hseen : ∀ name, isTempName name = false → content after name = seen name := fun name =>
    content_happenings hproper
  refine ⟨hseen, fun name => ?_⟩
  rw [mem_listCredentialFiles, ← isSome_content, and_comm]
  refine and_congr_right fun hname => ?_
  rw [hseen name (isTempName_of_credential hname)]

def drawn : Vector UInt8 8 := .ofFn fun i => UInt8.ofNat i

def oldDirectory : Directory := AList.insert "lobsterai-1001.json" ⟨encoded "a", false, 40⟩ ∅

/-- A write that is cut off shows nothing. -/
theorem directory_replaced_torn :
    content
      (Runs.run (Happening.perform fun _ => [7, 8, 9])
      [.create 0 drawn "lobsterai-1001.json" .null 50,
      .write 0 2 51, .abandon 0] (.idle oldDirectory)).files "lobsterai-1001.json" =
        some (encoded "a") := by
  have hreplaced :=
    @directory_replaced (fun _ => [7, 8, 9]) [.create 0 drawn "lobsterai-1001.json" .null 50,
    .write 0 2 51, .abandon 0] oldDirectory ⟨⟨by decide, rfl, nofun⟩, trivial, trivial, trivial⟩
  exact hreplaced.1 "lobsterai-1001.json" (by decide)

theorem mem_eventsOf {i : ℕ} {temp target : String} {body : List UInt8} {note : Stat}
    (h : Event.create i temp target body note ∈ eventsOf pretty happenings s) :
    ∃ random value, Happening.create i random target value note.modified ∈ happenings ∧
      pretty value = body := by
  induction happenings generalizing s with
  | nil => cases h
  | cons happening happenings ih =>
    rcases List.mem_cons.mp h with hnow | hlater
    · cases happening with
      | create j random name value now =>
        cases hnow
        exact ⟨random, value, List.mem_cons_self, rfl⟩
      | _ => cases hnow
    · obtain ⟨random, value, hmem, hbody⟩ := ih hlater
      exact ⟨random, value, List.mem_cons_of_mem _ hmem, hbody⟩

/-- What is listed can be loaded, if what was there and what is written can be. -/
theorem listed_loadable {serde : Serde}
    (hproper : Runs.Meets (Happening.perform pretty) Happening.Proper happenings (.idle dir))
    (hinitial : ∀ name ∈ listCredentialFiles dir, Loadable serde (content dir name))
    (hwritten : ∀ i random name value now, Happening.create i random name value now ∈ happenings →
      Loadable serde (some (pretty value))) :
    let after := (Runs.run (Happening.perform pretty) happenings (.idle dir)).files
    ∀ name ∈ listCredentialFiles after, Loadable serde (content after name) := by
  intro after name hlisted
  obtain ⟨hmem, hname⟩ := mem_listCredentialFiles.mp hlisted
  obtain ⟨body, hbody⟩ := Option.isSome_iff_exists.mp (isSome_content.mpr hmem)
  have hseen := content_happenings hproper (isTempName_of_credential hname)
  rw [hbody]
  rcases replaced_cases (hseen.symm.trans hbody) with hkept | hpublished
  · rw [← hkept]
    have hmem := isSome_content.mp (show (content dir name).isSome by rw [hkept]; rfl)
    exact hinitial name (mem_listCredentialFiles.mpr ⟨hmem, hname⟩)
  · rcases mem_publications hpublished with ⟨i, w, hw, -⟩ | ⟨i, temp, note, hcreate⟩
    · cases hw
    · obtain ⟨random, value, hmem, rfl⟩ := mem_eventsOf hcreate
      exact hwritten i random name value note.modified hmem

end Happenings

section Landing
variable {pretty : Json → List UInt8} {s : Disk} {i : ℕ} {temp target : String} {body : List UInt8}
    {since count : Nat}

/-- The write is in progress, in a file that is no older than it. -/
structure InProgress (i : ℕ) (temp target : String) (body : List UInt8) (since count : Nat)
    (s : Disk) : Prop where
  writer : s.writers i = some ⟨temp, target, body, count⟩
  file : ∃ file, s.files.lookup temp = some file ∧ since ≤ file.note.modified

def Happening.time : Happening → Option Nat
  | create _ _ _ _ now => some now
  | write _ _ now => some now
  | cleanup now _ => some now
  | _ => none

/-- It neither ends the write nor comes a day after its start. -/
structure Happening.Spares (i : ℕ) (since : Nat) (happening : Happening) : Prop where
  rename : happening ≠ .rename i
  refused : happening ≠ .renameRefused i
  abandon : happening ≠ .abandon i
  time : ∀ now ∈ happening.time, since ≤ now ∧ now < since + dayAsSecs

def Happening.writes (i : ℕ) : Happening → Nat
  | write j count _ => if j = i then count else 0
  | _ => 0

theorem InProgress.perform (hsound : Sound isTempName s)
    (h : InProgress i temp target body since count s) {happening : Happening}
    (hproper : happening.Proper s) (hspares : happening.Spares i since) :
    InProgress i temp target body since (count + happening.writes i)
      (happening.perform pretty s) := by
  obtain ⟨hwriter, file, hfile, hsince⟩ := h
  have hother {j : ℕ} {w : Publishing.Writer String UInt8} (hj : j ≠ i)
      (hw : s.writers j = some w) : temp ≠ w.temp := fun heq =>
    hj (hsound.alone j i w _ hw hwriter heq.symm)
  have hkept {files : Directory} {writers : ℕ → Option (Publishing.Writer String UInt8)}
      (hwriters : writers i = s.writers i)
      (hfiles : files.lookup temp = s.files.lookup temp) :
      InProgress i temp target body since count ⟨files, writers⟩ :=
    ⟨hwriters.trans hwriter, file, hfiles.trans hfile, hsince⟩
  cases happening with
  | create j random name value now =>
    obtain ⟨-, hfree, hfresh⟩ := hproper
    have hj : i ≠ j := fun heq => by
      rw [← heq, hwriter] at hfree
      cases hfree
    exact hkept (Function.update_of_ne hj ..) (AList.lookup_insert_ne (hfresh i _ hwriter))
  | write j more now =>
    show InProgress i temp target body since _
      (s.withWriter j fun w => State.advance j w more ⟨false, now⟩)
    by_cases hj : j = i
    · subst hj
      have hwrites : (Happening.write j more now).writes j = more := if_pos rfl
      rw [hwrites, withWriter_some _ hwriter]
      unfold State.advance
      rw [hfile]
      refine ⟨Function.update_self .., _, AList.lookup_insert .., (hspares.time now rfl).1⟩
    · have hwrites : (Happening.write j more now).writes i = 0 := if_neg hj
      rw [hwrites]
      cases hw : s.writers j with
      | none =>
        rw [withWriter_none _ hw]
        exact hkept rfl rfl
      | some w =>
        rw [withWriter_some _ hw]
        unfold State.advance
        have hwriters (v : Publishing.Writer String UInt8) :
            (s.enter j v).writers i = s.writers i := Function.update_of_ne (Ne.symm hj) ..
        cases s.files.lookup w.temp with
        | none => exact hkept (hwriters _) rfl
        | some other => exact hkept (hwriters _) (AList.lookup_insert_ne (hother hj hw))
  | rename j =>
    have hj : j ≠ i := fun heq => hspares.rename (heq ▸ rfl)
    show InProgress i temp target body since _ (s.withWriter j fun w => State.publish j w)
    cases hw : s.writers j with
    | none =>
      rw [withWriter_none _ hw]
      exact hkept rfl rfl
    | some w =>
      rw [withWriter_some _ hw]
      unfold State.publish
      have hwriters : (s.leave j).writers i = s.writers i := Function.update_of_ne (Ne.symm hj) ..
      split_ifs
      · exact hkept rfl rfl
      · cases s.files.lookup w.temp with
        | none => exact hkept hwriters rfl
        | some other =>
          have htarget : temp ≠ w.target := fun heq => by
            have htemp := (hsound.names i _ hwriter).1
            rw [heq, (hsound.names j w hw).2] at htemp
            cases htemp
          exact hkept hwriters
            ((AList.lookup_insert_ne htarget).trans (AList.lookup_erase_ne (hother hj hw)))
  | renameRefused j =>
    have hj : j ≠ i := fun heq => hspares.refused (heq ▸ rfl)
    show InProgress i temp target body since _
      (s.withWriter j fun w s => { s.leave j with files := s.files.erase w.temp })
    cases hw : s.writers j with
    | none =>
      rw [withWriter_none _ hw]
      exact hkept rfl rfl
    | some w =>
      rw [withWriter_some _ hw]
      exact hkept (Function.update_of_ne (Ne.symm hj) ..) (AList.lookup_erase_ne (hother hj hw))
  | abandon j =>
    have hj : i ≠ j := fun heq => hspares.abandon (heq ▸ rfl)
    exact hkept (Function.update_of_ne hj ..) rfl
  | cleanup now refused =>
    refine hkept rfl ?_
    have hyoung : temp ∉ staleTempFiles now s.files := fun hmem => by
      obtain ⟨e, he, hname⟩ := List.mem_map.mp hmem
      obtain ⟨hentry, hstale⟩ := List.mem_filter.mp he
      have hlookup : s.files.lookup e.1 = some e.2 := AList.mem_lookup_iff.mpr hentry
      rw [hname, hfile] at hlookup
      cases hlookup
      obtain ⟨hlow, hhigh⟩ := hspares.time now rfl
      simp only [Bool.and_eq_true, decide_eq_true_eq] at hstale
      omega
    exact (lookup_removeAll ..).trans (if_neg fun hmem => hyoung (List.mem_filter.mp hmem).1)

def written (i : ℕ) (happenings : List Happening) : Nat := (happenings.map (Happening.writes i)).sum

theorem InProgress.run {happenings : List Happening} (hsound : Sound isTempName s)
    (h : InProgress i temp target body since count s)
    (hproper : Runs.Meets (Happening.perform pretty) Happening.Proper happenings s)
    (hspares : ∀ happening ∈ happenings, happening.Spares i since) :
    InProgress i temp target body since (count + written i happenings)
      (Runs.run (Happening.perform pretty) happenings s) := by
  induction happenings generalizing s count with
  | nil => exact h
  | cons happening happenings ih =>
    obtain ⟨hfirst, hrest⟩ := List.forall_mem_cons.mp hspares
    have hnext :=
      ih (sound_perform _ hsound (proper_event hproper.1)) (h.perform hsound hproper.1 hfirst)
        hproper.2 hrest
    unfold written at hnext ⊢
    rwa [Nat.add_assoc, ← List.sum_cons, ← List.map_cons] at hnext

theorem InProgress.publish (h : InProgress i temp target body since count s)
    (hcount : body.length ≤ count) :
    (Event.rename i).published s = some (target, body) := by
  obtain ⟨hwriter, file, hfile, -⟩ := h
  have hmem : temp ∈ s.files := AList.lookup_isSome.mp (by rw [hfile]; rfl)
  unfold Event.published
  dsimp only
  rw [hwriter, Option.bind_some, if_neg (not_or.mpr ⟨not_lt.mpr hcount, not_not.mpr hmem⟩)]

/-- A write that is done within a day is seen, whatever other writes and sweeps there are. -/
theorem write_lands {before during : List Happening} {dir : Directory} {random : Vector UInt8 8}
    {name : String} {value : Json} {now : Nat}
    (hproper : Runs.Meets (Happening.perform pretty) Happening.Proper
      (before ++ .create i random name value now :: (during ++ [.rename i])) (.idle dir))
    (hspares : ∀ happening ∈ during, happening.Spares i now)
    (hwritten : (pretty value).length ≤ written i during) :
    content
      (Runs.run (Happening.perform pretty)
        (before ++ .create i random name value now :: (during ++ [.rename i]))
        (.idle dir)).files name = some (pretty value) := by
  obtain ⟨hbefore, hcreate, hlater⟩ := Runs.meets_append.mp hproper
  obtain ⟨hduring, hrename, -⟩ := Runs.meets_append.mp hlater
  rw [Runs.run_append, Runs.run_cons, Runs.run_append, Runs.run_cons, Runs.run_nil]
  have hstart := sound_happenings (sound_idle isTempName dir) hbefore
  generalize Runs.run (Happening.perform pretty) before (.idle dir) =
    s at hstart hcreate hlater hduring hrename ⊢
  have hcreated : InProgress i (tempName random) name (pretty value) now 0
      (Happening.perform pretty (.create i random name value now) s) :=
    ⟨Function.update_self .., _, AList.lookup_insert .., le_refl now⟩
  have hnext : Sound isTempName (Happening.perform pretty (.create i random name value now) s) :=
    sound_perform _ hstart (@proper_event pretty s _ hcreate)
  have hdone := hcreated.run hnext hduring hspares
  rw [Nat.zero_add] at hdone
  have hend := sound_happenings hnext hduring
  change content ((Event.rename i).perform _).files name = _
  rw [content_perform (.rename i) hend trivial (isTempName_of_credential hcreate.1),
    hdone.publish hwritten]
  exact if_pos rfl

/-- A sweep while the file is being written. -/
theorem write_lands_swept :
    content
      (Runs.run (Happening.perform fun _ => [7, 8, 9])
      ([] ++ .create 0 drawn "lobsterai-1001.json" .null 50 ::
      ([.write 0 2 50, .cleanup 60 (fun _ => false), .write 0 1 61] ++ [.rename 0]))
        (.idle oldDirectory)).files
      "lobsterai-1001.json" = some [7, 8, 9] := by
  refine write_lands ⟨⟨by decide, rfl, nofun⟩, trivial, trivial, trivial, trivial, trivial⟩ ?_
    (by decide)
  have htime (now : Nat) (h : 50 ≤ now ∧ now < 100) : 50 ≤ now ∧ now < 50 + dayAsSecs :=
    ⟨h.1, h.2.trans (by decide)⟩
  simp only [List.forall_mem_cons]
  refine ⟨⟨nofun, nofun, nofun, ?_⟩, ⟨nofun, nofun, nofun, ?_⟩, ⟨nofun, nofun, nofun, ?_⟩,
    List.forall_mem_nil _⟩
  all_goals
    intro now hnow
    cases hnow
    exact htime _ (by decide)

end Landing

section Pass
variable (serde : Serde) (safeName : String → String)

def Credential.new (path : String) (data : CredentialData) : Credential :=
  ⟨data.uid, safeName data.uid, path, data.accessToken, data.refreshToken⟩

def Directory.readCredential (dir : Directory) (name : String) : Option Credential :=
  (readCredentialFile serde (content dir name)).toOption.map (Credential.new safeName name)

def refreshPass (dir : Directory) (pool : Pool) : Pool :=
  (pool.prune dir.isFile).loadFiles dir.isFile (dir.readCredential serde safeName)
    (listCredentialFiles dir)

/-- The start of the process: leftovers are swept first. -/
def loadDir (now : Nat) (refused : String → Bool) (dir : Directory) (pool : Pool) :
    Directory × Pool :=
  let dir := (cleanupStaleTempFiles now refused dir).2
  (dir, pool.loadFiles dir.isFile (dir.readCredential serde safeName) (listCredentialFiles dir))

theorem content_loadDir (now : Nat) (refused : String → Bool) (dir : Directory) (pool : Pool)
    {name : String} (hname : isTempName name = false) :
    content (loadDir serde safeName now refused dir pool).1 name = content dir name := by
  have hkept : name ∉ (staleTempFiles now dir).filter fun name => !refused name := fun hmem => by
    rw [mem_staleTempFiles (List.mem_filter.mp hmem).1] at hname
    cases hname
  exact congrArg (Option.map File.content) ((lookup_removeAll ..).trans (if_neg hkept))

variable {present : String → Bool} {read : String → Option Credential} {entries : List Credential}
    {path : String}
  {paths : List String} {credential : Credential}

theorem represented_loadFile (hpresent : present path = true)
    (hread : read path = some credential) :
    ∃ c ∈ Pool.loadFile present read path entries, c.path = path ∨ c.uid = credential.uid := by
  unfold Pool.loadFile
  rw [hpresent, hread]
  dsimp only
  by_cases hpath : entries.any (fun c => c.path = path) = true
  · rw [if_pos (by rw [hpath]; rfl)]
    obtain ⟨c, hc, heq⟩ := List.any_eq_true.mp hpath
    exact ⟨c, hc, .inl (of_decide_eq_true heq)⟩
  · rw [if_neg (by simpa using hpath)]
    by_cases huid : entries.any (fun c => c.uid = credential.uid) = true
    · rw [if_pos huid]
      obtain ⟨c, hc, heq⟩ := List.any_eq_true.mp huid
      exact ⟨c, hc, .inr (of_decide_eq_true heq)⟩
    · rw [if_neg huid]
      exact ⟨_, List.mem_append_right _ List.mem_cons_self, .inl rfl⟩

theorem represented_loadFiles (hpath : path ∈ paths) (hpresent : present path = true)
    (hread : read path = some credential) :
    ∃ c ∈ paths.foldl (fun entries path => Pool.loadFile present read path entries) entries,
      c.path = path ∨ c.uid = credential.uid := by
  induction paths generalizing entries with
  | nil => cases hpath
  | cons first paths ih =>
    rcases List.mem_cons.mp hpath with rfl | hlater
    · obtain ⟨c, hc, hsame⟩ :=
        @represented_loadFile present read entries path credential hpresent hread
      exact ⟨c, Pool.mem_foldl_loadFile hc paths, hsame⟩
    · exact ih hlater

theorem mem_of_loadFile (h : credential ∈ Pool.loadFile present read path entries) :
    credential ∈ entries ∨
    present path = true ∧ ∃ loaded, read path = some loaded ∧
      credential = { loaded with path := path } := by
  unfold Pool.loadFile at h
  split_ifs at h with hskip
  · exact .inl h
  · have hpresent : present path = true := by
      cases hp : present path with
      | true => rfl
      | false => exact absurd (by rw [hp]; rfl) hskip
    cases hread : read path with
    | none =>
      rw [hread] at h
      exact .inl h
    | some loaded =>
      rw [hread] at h
      dsimp only at h
      split_ifs at h
      · exact .inl h
      · exact (List.mem_append.mp h).imp_right fun hnew =>
          ⟨hpresent, loaded, rfl, List.mem_singleton.mp hnew⟩

theorem mem_of_loadFiles
    (h : credential ∈
      paths.foldl (fun entries path => Pool.loadFile present read path entries) entries) :
    credential ∈ entries ∨ ∃ path ∈ paths, present path = true ∧
      ∃ loaded, read path = some loaded ∧ credential = { loaded with path := path } := by
  induction paths generalizing entries with
  | nil => exact .inl h
  | cons path paths ih =>
    rcases ih h with hfirst | ⟨later, hlater, hloaded⟩
    · exact (mem_of_loadFile hfirst).imp_right fun hloaded => ⟨path, List.mem_cons_self, hloaded⟩
    · exact .inr ⟨later, List.mem_cons_of_mem _ hlater, hloaded⟩

variable {serde safeName} {dir : Directory} {pool : Pool} {name : String} {data : CredentialData}

theorem readCredential_of_ok (h : readCredentialFile serde (content dir name) = .ok data) :
    dir.readCredential serde safeName name = some (Credential.new safeName name data) := by
  unfold Directory.readCredential
  rw [h]
  rfl

/-- What a pass leaves was in the pool and has its file, or comes out of a listed file. -/
theorem mem_refreshPass (h : credential ∈ (refreshPass serde safeName dir pool).entries) :
    credential ∈ pool.entries ∧ credential.path ∈ dir ∨
      ∃ path ∈ listCredentialFiles dir, ∃ loaded,
        dir.readCredential serde safeName path = some loaded ∧
        credential = { loaded with path := path } := by
  rcases mem_of_loadFiles h with hold | ⟨path, hpath, -, hloaded⟩
  · rw [Pool.entries_prune] at hold
    obtain ⟨hmem, hpresent⟩ := List.mem_filter.mp hold
    exact .inl ⟨hmem, of_decide_eq_true hpresent⟩
  · exact .inr ⟨path, hpath, hloaded⟩

theorem represented_refreshPass (hlisted : name ∈ listCredentialFiles dir)
    (hread : readCredentialFile serde (content dir name) = .ok data) :
    ∃ c ∈ (refreshPass serde safeName dir pool).entries, c.path = name ∨ c.uid = data.uid :=
  represented_loadFiles hlisted (decide_eq_true (mem_listCredentialFiles.mp hlisted).1)
    (readCredential_of_ok hread)

variable (serde safeName)

/-- Whatever has happened in the directory, a pass brings the pool in line with it: every account
has its file, no two are the same, and no file that is listed is turned away. -/
theorem refreshPass_mirrors {pretty : Json → List UInt8} {happenings : List Happening}
    {dir : Directory}
    (hproper : Runs.Meets (Happening.perform pretty) Happening.Proper happenings (.idle dir))
    (hinitial : ∀ name ∈ listCredentialFiles dir, Loadable serde (content dir name))
    (hwritten : ∀ i random name value now, Happening.create i random name value now ∈ happenings →
      Loadable serde (some (pretty value)))
    {pool : Pool} (hdistinct : Pool.Distinct pool.entries) :
    let after : Directory := (Runs.run (Happening.perform pretty) happenings (.idle dir)).files
    let entries := (refreshPass serde safeName after pool).entries
    (∀ c ∈ entries, c.path ∈ after) ∧ Pool.Distinct entries ∧
      ∀ name ∈ listCredentialFiles after, ∃ data,
        readCredentialFile serde (content after name) = .ok data ∧
        ∃ c ∈ entries, c.path = name ∨ c.uid = data.uid := by
  intro after entries
  refine ⟨fun c hc => ?_, ?_, fun name hlisted => ?_⟩
  · rcases mem_refreshPass hc with ⟨-, hfile⟩ | ⟨path, hpath, loaded, -, rfl⟩
    · exact hfile
    · exact (mem_listCredentialFiles.mp hpath).1
  · refine Pool.Distinct.loadFiles ?_ _
    rw [Pool.entries_prune]
    exact hdistinct.sublist List.filter_sublist
  · obtain ⟨data, hdata⟩ := listed_loadable hproper hinitial hwritten name hlisted
    exact ⟨data, hdata, represented_refreshPass hlisted hdata⟩

def tinyText : Serde := onTexts [("a", oldFile)]

theorem loadable_tinyText : Loadable tinyText (some (encoded "a")) := by
  have hread : tinyText.fromSlice (encoded "a") = some oldFile :=
    fromSlice_encoded [("a", oldFile)] "a"
  refine loadable_some.mpr ⟨?_, oldFile, { oldData with refreshToken := "" },
    hread, by decide +kernel⟩
  rw [length_encoded]
  decide +kernel

theorem refreshPass_mirrors_torn :
    Pool.Distinct (refreshPass tinyText id (Runs.run (Happening.perform fun _ => encoded "a")
      [.create 0 drawn "lobsterai-1002.json" oldFile 50, .write 0 1 50, .rename 0,
        .cleanup 90000 fun _ => false]
      (.idle oldDirectory)).files (.new smallLimits)).entries := by
  have hone : listCredentialFiles oldDirectory = ["lobsterai-1001.json"] := by decide
  refine (@refreshPass_mirrors tinyText id (fun _ => encoded "a")
    [.create 0 drawn "lobsterai-1002.json" oldFile 50,
    .write 0 1 50, .rename 0, .cleanup 90000 fun _ => false] oldDirectory ?_ ?_ ?_
    (.new smallLimits) List.nodup_nil).2.1
  · exact ⟨⟨by decide, rfl, nofun⟩, trivial, trivial, trivial, trivial⟩
  · intro name hname
    rw [hone, List.mem_singleton] at hname
    rw [hname]
    exact loadable_tinyText
  · exact fun _ _ _ _ _ _ => loadable_tinyText

end Pass

end Lobster.Upstream
