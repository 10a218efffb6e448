import LobsterProxy.Base.Runs
import Mathlib.Data.List.AList
import Mathlib.Logic.Function.Basic

/-! Files that are written under a name of their own and then renamed. Writers interleave in any
order, each may be given up at any point, and files are swept away meanwhile; what is seen under
the other names is a run of whole replacements. -/

namespace Lobster.Publishing
open Runs
variable {κ β μ : Type} [DecidableEq κ]

/-- What a file holds, and what else is known of it. -/
structure File (β μ : Type) where
  content : List β
  note : μ

abbrev Files (κ β μ : Type) := AList fun _ : κ => File β μ

/-- Writes a body under one name to rename it to another; so much of it is written. -/
structure Writer (κ β : Type) where
  temp : κ
  target : κ
  body : List β
  count : ℕ

def Writer.after (count : ℕ) (w : Writer κ β) : Writer κ β := { w with count := w.count + count }

structure State (κ β μ : Type) where
  files : Files κ β μ
  writers : ℕ → Option (Writer κ β)

inductive Event (κ β μ : Type) where
  | create (i : ℕ) (temp target : κ) (body : List β) (note : μ)
  | write (i count : ℕ) (note : μ)
  | rename (i : ℕ)
  /-- The file cannot be renamed, and is removed. -/
  | undo (i : ℕ)
  /-- The writer fails, or is stopped from outside. -/
  | abandon (i : ℕ)
  | sweep (names : List κ)

namespace State

def idle (files : Files κ β μ) : State κ β μ := ⟨files, fun _ => none⟩

def leave (i : ℕ) (s : State κ β μ) : State κ β μ :=
  { s with writers := Function.update s.writers i none }

def enter (i : ℕ) (w : Writer κ β) (s : State κ β μ) : State κ β μ :=
  { s with writers := Function.update s.writers i (some w) }

/-- A writer goes on in its own file; one that was swept away is written to no effect. -/
def advance (i : ℕ) (w : Writer κ β) (count : ℕ) (note : μ) (s : State κ β μ) : State κ β μ :=
  match s.files.lookup w.temp with
  | some file => { s.enter i (w.after count) with
      files := s.files.insert w.temp ⟨file.content ++ (w.body.drop w.count).take count, note⟩ }
  | none => s.enter i (w.after count)

/-- A writer that has written all of its body renames its file, if it is still there. -/
def publish (i : ℕ) (w : Writer κ β) (s : State κ β μ) : State κ β μ :=
  if w.count < w.body.length then s
  else match s.files.lookup w.temp with
    | some file => { s.leave i with files := (s.files.erase w.temp).insert w.target file }
    | none => s.leave i

def withWriter (i : ℕ) (act : Writer κ β → State κ β μ → State κ β μ) (s : State κ β μ) :
    State κ β μ :=
  match s.writers i with
  | some w => act w s
  | none => s

def removeAll (names : List κ) (files : Files κ β μ) : Files κ β μ :=
  names.foldl (fun files name => files.erase name) files

end State

namespace Event
open State

def perform (event : Event κ β μ) (s : State κ β μ) : State κ β μ :=
  match event with
  | create i temp target body note =>
    { s.enter i ⟨temp, target, body, 0⟩ with files := s.files.insert temp ⟨[], note⟩ }
  | write i count note => s.withWriter i fun w => advance i w count note
  | rename i => s.withWriter i fun w => publish i w
  | undo i => s.withWriter i fun w s => { s.leave i with files := s.files.erase w.temp }
  | abandon i => s.leave i
  | sweep names => { s with files := removeAll names s.files }

def published (event : Event κ β μ) (s : State κ β μ) : Option (κ × List β) :=
  match event with
  | rename i => (s.writers i).bind fun w =>
    if w.count < w.body.length ∨ w.temp ∉ s.files then none else some (w.target, w.body)
  | _ => none

/-- A writer starts under a name that no other writes under. -/
def Proper (isTemp : κ → Bool) (event : Event κ β μ) (s : State κ β μ) : Prop :=
  match event with
  | create i temp target _ _ => isTemp temp = true ∧ isTemp target = false ∧ s.writers i = none ∧
    ∀ j w, s.writers j = some w → w.temp ≠ temp
  | sweep names => ∀ name ∈ names, isTemp name = true
  | _ => True

end Event

def publications : List (Event κ β μ) → State κ β μ → List (κ × List β)
  | [], _ => []
  | event :: events, s => (event.published s).toList ++ publications events (event.perform s)

def content (files : Files κ β μ) (name : κ) : Option (List β) :=
  (files.lookup name).map File.content

def replaced (name : κ) (publications : List (κ × List β)) (seen : Option (List β)) :
    Option (List β) :=
  publications.foldl (fun seen p => if p.1 = name then some p.2 else seen) seen

/-- Each writer is alone under its name, and its file holds what it has written. -/
structure Sound (isTemp : κ → Bool) (s : State κ β μ) : Prop where
  names : ∀ i w, s.writers i = some w → isTemp w.temp = true ∧ isTemp w.target = false
  alone : ∀ i j w v, s.writers i = some w → s.writers j = some v → w.temp = v.temp → i = j
  written : ∀ i w file, s.writers i = some w → s.files.lookup w.temp = some file →
    file.content = w.body.take w.count

section Files
variable {files : Files κ β μ} {name other : κ} {file : File β μ}

theorem content_insert_self : content (files.insert name file) name = some file.content := by
  unfold content
  rw [AList.lookup_insert, Option.map_some]

theorem content_insert_ne (h : name ≠ other) :
    content (files.insert other file) name = content files name := by
  unfold content
  rw [AList.lookup_insert_ne h]

theorem content_erase_ne (h : name ≠ other) :
    content (files.erase other) name = content files name := by
  unfold content
  rw [AList.lookup_erase_ne h]

theorem lookup_removeAll (names : List κ) (files : Files κ β μ) :
    (State.removeAll names files).lookup name = if name ∈ names then
      none else files.lookup name := by
  unfold State.removeAll
  induction names generalizing files with
  | nil => rfl
  | cons other names ih =>
    rw [List.foldl_cons, ih]
    by_cases hmem : name ∈ names
    · rw [if_pos hmem, if_pos (List.mem_cons_of_mem _ hmem)]
    · rw [if_neg hmem]
      by_cases heq : name = other
      · subst heq
        rw [if_pos List.mem_cons_self, AList.lookup_erase]
      · rw [AList.lookup_erase_ne heq, if_neg (by simp [heq, hmem])]

end Files

section Writers
variable {s : State κ β μ} {i j : ℕ} {w v : Writer κ β}

omit [DecidableEq κ] in
theorem writers_leave (h : (s.leave i).writers j = some v) : j ≠ i ∧ s.writers j = some v := by
  unfold State.leave at h
  dsimp only at h
  by_cases hj : j = i
  · subst hj
    rw [Function.update_self] at h
    cases h
  · rw [Function.update_of_ne hj] at h
    exact ⟨hj, h⟩

omit [DecidableEq κ] in
theorem writers_enter (h : (s.enter i w).writers j = some v) :
    j = i ∧ v = w ∨ j ≠ i ∧ s.writers j = some v := by
  unfold State.enter at h
  dsimp only at h
  by_cases hj : j = i
  · subst hj
    rw [Function.update_self] at h
    exact .inl ⟨rfl, (Option.some.inj h).symm⟩
  · rw [Function.update_of_ne hj] at h
    exact .inr ⟨hj, h⟩

omit [DecidableEq κ] in
theorem withWriter_none (act : Writer κ β → State κ β μ → State κ β μ) (h : s.writers i = none) :
    s.withWriter i act = s := by
  unfold State.withWriter
  rw [h]

omit [DecidableEq κ] in
theorem withWriter_some (act : Writer κ β → State κ β μ → State κ β μ) (h : s.writers i = some w) :
    s.withWriter i act = act w s := by
  unfold State.withWriter
  rw [h]

end Writers

section Step
variable {isTemp : κ → Bool} {s : State κ β μ} {i : ℕ} {w : Writer κ β}

theorem Sound.leave (h : Sound isTemp s) {files : Files κ β μ}
    (hfiles : ∀ j v file, j ≠ i → s.writers j = some v → files.lookup v.temp = some file →
      s.files.lookup v.temp = some file) : Sound isTemp { s.leave i with files := files } where
  names j v hv := h.names j v (writers_leave hv).2
  alone j k v u hv hu := h.alone j k v u (writers_leave hv).2 (writers_leave hu).2
  written j v file hv hfile :=
    h.written j v file (writers_leave hv).2
      (hfiles j v file (writers_leave hv).1 (writers_leave hv).2 hfile)

theorem Sound.enter (h : Sound isTemp s) {files : Files κ β μ}
    (hnames : isTemp w.temp = true ∧ isTemp w.target = false)
    (halone : ∀ j v, j ≠ i → s.writers j = some v → v.temp ≠ w.temp)
    (hfiles : ∀ name, name ≠ w.temp → files.lookup name = s.files.lookup name)
    (hown : ∀ file, files.lookup w.temp = some file → file.content = w.body.take w.count) :
    Sound isTemp { s.enter i w with files := files } where
  names j v hv := by
    rcases writers_enter hv with ⟨-, rfl⟩ | ⟨-, hv⟩
    · exact hnames
    · exact h.names j v hv
  alone j k v u hv hu hsame := by
    rcases writers_enter hv with ⟨rfl, rfl⟩ | ⟨hj, hv'⟩ <;>
      rcases writers_enter hu with ⟨rfl, rfl⟩ | ⟨hk, hu'⟩
    · rfl
    · exact absurd hsame.symm (halone k u hk hu')
    · exact absurd hsame (halone j v hj hv')
    · exact h.alone j k v u hv' hu' hsame
  written j v file hv hfile := by
    rcases writers_enter hv with ⟨-, rfl⟩ | ⟨hj, hv⟩
    · exact hown file hfile
    · rw [hfiles v.temp (halone j v hj hv)] at hfile
      exact h.written j v file hv hfile

variable (event : Event κ β μ)

theorem sound_perform (h : Sound isTemp s) (hproper : event.Proper isTemp s) :
    Sound isTemp (event.perform s) := by
  have halone {i : ℕ} {w : Writer κ β} (hw : s.writers i = some w) :
      ∀ j v, j ≠ i → s.writers j = some v → v.temp ≠ w.temp := fun j v hj hv hsame =>
    hj (h.alone j i v w hv hw hsame)
  cases event with
  | create i temp target body note =>
    obtain ⟨htemp, htarget, -, hfresh⟩ := hproper
    refine h.enter ⟨htemp, htarget⟩ (fun j v _ hv => hfresh j v hv)
      (fun name hname => AList.lookup_insert_ne hname) ?_
    intro file hfile
    rw [AList.lookup_insert] at hfile
    cases hfile
    rfl
  | write i count note =>
    show Sound isTemp (s.withWriter i fun w => State.advance i w count note)
    cases hw : s.writers i with
    | none => rwa [withWriter_none _ hw]
    | some w =>
      rw [withWriter_some _ hw]
      have hothers : ∀ j v, j ≠ i → s.writers j = some v → v.temp ≠ (w.after count).temp :=
        @halone i w hw
      unfold State.advance
      cases hfile : s.files.lookup w.temp with
      | none =>
        refine h.enter (h.names i w hw) hothers (fun name _ => rfl) fun file hother => ?_
        rw [show (w.after count).temp = w.temp from rfl, hfile] at hother
        cases hother
      | some file =>
        refine h.enter (h.names i w hw) hothers (fun name hname => AList.lookup_insert_ne hname)
          fun other hother => ?_
        rw [show (w.after count).temp = w.temp from rfl, AList.lookup_insert] at hother
        cases hother
        rw [h.written i w file hw hfile]
        exact List.take_add.symm
  | rename i =>
    show Sound isTemp (s.withWriter i fun w => State.publish i w)
    cases hw : s.writers i with
    | none => rwa [withWriter_none _ hw]
    | some w =>
      rw [withWriter_some _ hw]
      unfold State.publish
      split_ifs with hcount
      · exact h
      · cases hfile : s.files.lookup w.temp with
        | none => exact h.leave fun j v file _ _ hkept => hkept
        | some file =>
          refine h.leave fun j v other hj hv hother => ?_
          have htarget : v.temp ≠ w.target := fun heq => by
            have htemp := (h.names j v hv).1
            rw [heq, (h.names i w hw).2] at htemp
            cases htemp
          rwa
            [AList.lookup_insert_ne htarget, AList.lookup_erase_ne (halone hw j v hj hv)] at hother
  | undo i =>
    show Sound isTemp (s.withWriter i fun w s => { s.leave i with files := s.files.erase w.temp })
    cases hw : s.writers i with
    | none => rwa [withWriter_none _ hw]
    | some w =>
      rw [withWriter_some _ hw]
      refine h.leave fun j v other hj hv hother => ?_
      rwa [AList.lookup_erase_ne (halone hw j v hj hv)] at hother
  | abandon i => exact h.leave fun j v file _ _ hkept => hkept
  | sweep names =>
    refine ⟨h.names, h.alone, fun j v file hv hfile => h.written j v file hv ?_⟩
    unfold Event.perform at hfile
    dsimp only at hfile
    rw [lookup_removeAll] at hfile
    split_ifs at hfile
    exact hfile

theorem content_perform (h : Sound isTemp s) (hproper : event.Proper isTemp s) {name : κ}
    (hname : isTemp name = false) :
    content (event.perform s).files name =
      replaced name (event.published s).toList (content s.files name) := by
  have htemp {other : κ} (hother : isTemp other = true) : name ≠ other := fun heq => by
    rw [heq, hother] at hname
    cases hname
  cases event with
  | create i temp target body note => exact content_insert_ne (htemp hproper.1)
  | write i count note =>
    show content (s.withWriter i fun w => State.advance i w count note).files name =
      content s.files name
    cases hw : s.writers i with
    | none => rw [withWriter_none _ hw]
    | some w =>
      rw [withWriter_some _ hw]
      unfold State.advance
      cases s.files.lookup w.temp with
      | none => rfl
      | some file => exact content_insert_ne (htemp (h.names i w hw).1)
  | rename i =>
    show content (s.withWriter i fun w => State.publish i w).files name =
      replaced name ((s.writers i).bind fun w =>
      if w.count < w.body.length ∨ w.temp ∉ s.files then none else some (w.target, w.body)).toList
        (content s.files name)
    cases hw : s.writers i with
    | none =>
      rw [withWriter_none _ hw]
      rfl
    | some w =>
      rw [withWriter_some _ hw, Option.bind_some]
      unfold State.publish
      by_cases hcount : w.count < w.body.length
      · rw [if_pos hcount, if_pos (.inl hcount)]
        rfl
      rw [if_neg hcount]
      cases hfile : s.files.lookup w.temp with
      | none =>
        rw [if_pos (.inr (AList.lookup_eq_none.mp hfile))]
        rfl
      | some file =>
        have hmem : w.temp ∈ s.files := AList.lookup_isSome.mp (by rw [hfile]; rfl)
        rw [if_neg (not_or.mpr ⟨hcount, not_not.mpr hmem⟩)]
        -- the file holds all of the body
        have hwhole : file.content = w.body := by
          rw [h.written i w file hw hfile, List.take_of_length_le (not_lt.mp hcount)]
        by_cases heq : w.target = name
        · subst heq
          rw [content_insert_self, hwhole]
          exact (if_pos rfl).symm
        · rw [content_insert_ne (Ne.symm heq), content_erase_ne (htemp (h.names i w hw).1)]
          exact (if_neg heq).symm
  | undo i =>
    show content
      (s.withWriter i fun w s => { s.leave i with files := s.files.erase w.temp }).files name =
        content s.files name
    cases hw : s.writers i with
    | none => rw [withWriter_none _ hw]
    | some w =>
      rw [withWriter_some _ hw]
      exact content_erase_ne (htemp (h.names i w hw).1)
  | abandon i => rfl
  | sweep names =>
    have hkept : name ∉ names := fun hmem => htemp (hproper name hmem) rfl
    unfold content Event.perform
    dsimp only
    rw [lookup_removeAll, if_neg hkept]
    rfl

end Step

section Run
variable {isTemp : κ → Bool} {s : State κ β μ} {events : List (Event κ β μ)}

theorem replaced_append (name : κ) (before after : List (κ × List β)) (seen : Option (List β)) :
    replaced name (before ++ after) seen = replaced name after (replaced name before seen) :=
      List.foldl_append

theorem sound_idle (isTemp : κ → Bool) (files : Files κ β μ) : Sound isTemp (.idle files) :=
  ⟨nofun, nofun, nofun⟩

theorem sound_run (h : Sound isTemp s)
    (hproper : Meets Event.perform (Event.Proper isTemp) events s) :
    Sound isTemp (run Event.perform events s) :=
  run_invariant (Sound isTemp) (fun event _ hs hp => sound_perform event hs hp) h hproper

/-- Whatever the writers, the failures and the sweeps do in between, the names that are not
temporary show a run of whole replacements. -/
theorem content_run (h : Sound isTemp s)
    (hproper : Meets Event.perform (Event.Proper isTemp) events s) {name : κ}
    (hname : isTemp name = false) : content (run Event.perform events s).files name =
      replaced name (publications events s) (content s.files name) := by
  induction events generalizing s with
  | nil => rfl
  | cons event events ih =>
    rw [run_cons, ih (sound_perform event h hproper.1) hproper.2,
      content_perform event h hproper.1 hname]
    exact (replaced_append ..).symm

theorem replaced_cases {name : κ} {publications : List (κ × List β)} {seen : Option (List β)}
    {body : List β} (h : replaced name publications seen = some body) :
    seen = some body ∨ (name, body) ∈ publications := by
  induction publications generalizing seen with
  | nil => exact .inl h
  | cons p publications ih =>
    rcases ih h with hseen | hmem
    · dsimp only at hseen
      by_cases heq : p.1 = name
      · rw [if_pos heq] at hseen
        cases hseen
        exact .inr (heq ▸ List.mem_cons_self)
      · rw [if_neg heq] at hseen
        exact .inl hseen
    · exact .inr (List.mem_cons_of_mem _ hmem)

theorem writers_perform {event : Event κ β μ} {i : ℕ} {w : Writer κ β}
    (hw : (event.perform s).writers i = some w) :
    (∃ v, s.writers i = some v ∧ v.target = w.target ∧ v.body = w.body) ∨
      ∃ temp note, event = .create i temp w.target w.body note := by
  have hold {v : Writer κ β} (hv : s.writers i = some v) (htarget : v.target = w.target)
      (hbody : v.body = w.body) :
      (∃ v, s.writers i = some v ∧ v.target = w.target ∧ v.body = w.body) ∨
        ∃ temp note, event = .create i temp w.target w.body note := .inl ⟨v, hv, htarget, hbody⟩
  cases event with
  | create j temp target body note =>
    rcases writers_enter hw with ⟨rfl, rfl⟩ | ⟨-, hw⟩
    · exact .inr ⟨temp, note, rfl⟩
    · exact hold hw rfl rfl
  | write j count note =>
    change (s.withWriter j fun v => State.advance j v count note).writers i = some w at hw
    cases hv : s.writers j with
    | none =>
      rw [withWriter_none _ hv] at hw
      exact hold hw rfl rfl
    | some v =>
      have henter : (s.enter j (v.after count)).writers i = some w := by
        rw [withWriter_some _ hv] at hw
        unfold State.advance at hw
        cases hfile : s.files.lookup v.temp with
        | none =>
          rw [hfile] at hw
          exact hw
        | some file =>
          rw [hfile] at hw
          exact hw
      rcases writers_enter henter with ⟨rfl, rfl⟩ | ⟨-, hw⟩
      · exact hold hv rfl rfl
      · exact hold hw rfl rfl
  | rename j =>
    change (s.withWriter j fun v => State.publish j v).writers i = some w at hw
    cases hv : s.writers j with
    | none =>
      rw [withWriter_none _ hv] at hw
      exact hold hw rfl rfl
    | some v =>
      rw [withWriter_some _ hv] at hw
      unfold State.publish at hw
      split_ifs at hw
      · exact hold hw rfl rfl
      · cases hfile : s.files.lookup v.temp with
        | none =>
          rw [hfile] at hw
          exact hold (writers_leave hw).2 rfl rfl
        | some file =>
          rw [hfile] at hw
          exact hold (@writers_leave _ _ _ s j i w hw).2 rfl rfl
  | undo j =>
    change (s.withWriter j fun v s =>
      { s.leave j with files := s.files.erase v.temp }).writers i = some w at hw
    cases hv : s.writers j with
    | none =>
      rw [withWriter_none _ hv] at hw
      exact hold hw rfl rfl
    | some v =>
      rw [withWriter_some _ hv] at hw
      exact hold (@writers_leave _ _ _ s j i w hw).2 rfl rfl
  | abandon j => exact hold (writers_leave hw).2 rfl rfl
  | sweep names => exact hold hw rfl rfl

theorem writers_of_published {event : Event κ β μ} {p : κ × List β}
    (h : event.published s = some p) :
    ∃ i w, s.writers i = some w ∧ w.target = p.1 ∧ w.body = p.2 := by
  cases event with
  | rename i =>
    obtain ⟨w, hw, hpublished⟩ := Option.bind_eq_some_iff.mp h
    split_ifs at hpublished
    cases hpublished
    exact ⟨i, w, hw, rfl, rfl⟩
  | _ => cases h

theorem mem_publications {p : κ × List β} (h : p ∈ publications events s) :
    (∃ i w, s.writers i = some w ∧ w.target = p.1 ∧ w.body = p.2) ∨
      ∃ i temp note, Event.create i temp p.1 p.2 note ∈ events := by
  induction events generalizing s with
  | nil => cases h
  | cons event events ih =>
    rcases List.mem_append.mp h with hnow | hlater
    · exact .inl (writers_of_published (Option.mem_toList.mp hnow))
    · rcases ih hlater with ⟨i, w, hw, htarget, hbody⟩ | ⟨i, temp, note, hmem⟩
      · rcases writers_perform hw with ⟨v, hv, hvtarget, hvbody⟩ | ⟨temp, note, rfl⟩
        · exact .inl ⟨i, v, hv, hvtarget.trans htarget, hvbody.trans hbody⟩
        · exact .inr ⟨i, temp, note, by rw [htarget, hbody]; exact List.mem_cons_self⟩
      · exact .inr ⟨i, temp, note, List.mem_cons_of_mem _ hmem⟩

end Run

end Lobster.Publishing
