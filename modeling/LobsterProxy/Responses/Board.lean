import LobsterProxy.Base.Emitter
import LobsterProxy.Base.Snoc
import LobsterProxy.Responses.Frame
import Mathlib.Data.List.Induction

/-! The board of output items that a past of Responses events describes: what each
item is, what has been written to it and whether it is closed. -/

namespace Lobster.Responses
open Trace Snoc

structure About where
  kind : ItemKind
  itemId : String
  outputIndex : Nat
  deriving DecidableEq, Repr

namespace Event

def added? : Event → Option (Nat × Item)
  | outputItemAdded outputIndex item => some (outputIndex, item)
  | _ => none

def done? : Event → Option (Nat × Item)
  | outputItemDone outputIndex item => some (outputIndex, item)
  | _ => none

def about? : Event → Option About
  | outputItemDone i item => some ⟨item.kind, item.id, i⟩
  | reasoningPartAdded itemId i | reasoningDelta itemId i _ | reasoningTextDone itemId i _
  | reasoningPartDone itemId i _ => some ⟨.reasoning, itemId, i⟩
  | contentPartAdded itemId i | outputTextDelta itemId i _ | outputTextDone itemId i _
  | contentPartDone itemId i _ => some ⟨.message, itemId, i⟩
  | argumentsDelta itemId i _ | argumentsDone itemId i _ => some ⟨.functionCall, itemId, i⟩
  | _ => none

def deltaText? : Event → Option String
  | reasoningDelta _ _ delta | outputTextDelta _ _ delta | argumentsDelta _ _ delta => some delta
  | _ => none

/-- The text that a `done` frame says the item has. -/
def doneText? : Event → Option String
  | reasoningTextDone _ _ text | reasoningPartDone _ _ text | outputTextDone _ _ text
  | contentPartDone _ _ text => some text
  | argumentsDone _ _ arguments => some arguments
  | outputItemDone _ item => item.text?
  | _ => none

def response? : Event → Option ResponseObject
  | completed response | incomplete response | failed response => some response
  | _ => none

def isTerminal (e : Event) : Bool := e.response?.isSome

def isAbout (k : Nat) (e : Event) : Bool := e.about?.any fun about => about.outputIndex = k

end Event

def added (past : List Event) : List (Nat × Item) := past.filterMap Event.added?

def donesAt (k : Nat) (past : List Event) : List Item :=
  (past.filter (Event.isAbout k)).filterMap fun e => e.done?.map Prod.snd

def streamed (k : Nat) (past : List Event) : String :=
  past.foldl (fun text e => if e.isAbout k then text ++ e.deltaText?.getD "" else text) ""

def doneTexts (k : Nat) (past : List Event) : List String :=
  (past.filter (Event.isAbout k)).filterMap Event.doneText?

/-- A frame speaks only about an item that was added before, by its index and id. -/
def Allowed (past : List Event) (e : Event) : Prop :=
  ∀ about, e.about? = some about → ∃ item, (about.outputIndex, item) ∈ added past ∧
    item.kind = about.kind ∧ item.id = about.itemId

structure Entry where
  kind : ItemKind
  id : String
  text : String
  closed : Bool
  deriving DecidableEq, Repr

def Entry.write (delta : String) (entry : Entry) : Entry :=
  { entry with text := entry.text ++ delta }

def Entry.close (entry : Entry) : Entry := { entry with closed := true }

def Item.shown (item : Item) : ItemKind × String × Option String := (item.kind, item.id, item.text?)

def Entry.shown (entry : Entry) : ItemKind × String × Option String :=
  (entry.kind, entry.id, some entry.text)

/-- The items in the order of their output indices. -/
abbrev Board := List Entry

structure Records (board : Board) (past : List Event) : Prop where
  legal : Legal Allowed past
  running : ∀ e ∈ past, e.isTerminal = false
  added : (added past).map (fun a => (a.1, a.2.kind, a.2.id)) =
    board.mapIdx fun i entry => (i, entry.kind, entry.id)
  streamed : ∀ k entry, board[k]? = some entry → streamed k past = entry.text
  dones :
    ∀ k entry, board[k]? = some entry → (donesAt k past).map (fun item => (item.kind, item.id)) =
    if entry.closed then [(entry.kind, entry.id)] else []

theorem added_snoc (past : List Event) (e : Event) :
    added (past ++ [e]) = added past ++ e.added?.toList := by
  unfold added
  rw [List.filterMap_append]
  cases h : e.added? <;> simp [h]

theorem streamed_snoc (k : Nat) (past : List Event) (e : Event) :
    streamed k (past ++ [e]) =
      if e.isAbout k then streamed k past ++ e.deltaText?.getD "" else streamed k past := by
  unfold streamed
  rw [List.foldl_append]
  rfl

theorem donesAt_snoc (k : Nat) (past : List Event) (e : Event) :
    donesAt k (past ++ [e]) =
      donesAt k past ++ if e.isAbout k then (e.done?.map Prod.snd).toList else [] := by
  unfold donesAt
  rw [List.filter_append, List.filterMap_append]
  cases hk : e.isAbout k <;> cases he : e.done? <;> simp [hk, he]

theorem doneTexts_snoc (k : Nat) (past : List Event) (e : Event) :
    doneTexts k (past ++ [e]) = doneTexts k past ++ if e.isAbout k then
      e.doneText?.toList else [] := by
  unfold doneTexts
  rw [List.filter_append, List.filterMap_append]
  cases hk : e.isAbout k <;> cases he : e.doneText? <;> simp [hk, he]

theorem isAbout_iff {e : Event} {about : About} (h : e.about? = some about) (k : Nat) :
    e.isAbout k = true ↔ about.outputIndex = k := by
  unfold Event.isAbout
  rw [h, Option.any_some, decide_eq_true_iff]

theorem added?_eq_none {e : Event} {about : About} (h : e.about? = some about) :
    e.added? = none := by
  cases e <;> first | rfl | cases h

theorem isTerminal_of_about {e : Event} {about : About} (h : e.about? = some about) :
    e.isTerminal = false := by
  cases e <;> first | rfl | cases h

section Records
variable {board : Board} {past : List Event} {e : Event} {k : Nat} {entry : Entry}

theorem running_snoc (h : ∀ e ∈ past, e.isTerminal = false) (he : e.isTerminal = false) :
    ∀ e' ∈ past ++ [e], e'.isTerminal = false := by
  intro e' hmem
  rcases List.mem_append.mp hmem with hpast | hlast
  · exact h e' hpast
  · rw [List.mem_singleton.mp hlast, he]

theorem records_nil : Records [] [] where
  legal := legal_nil
  running := nofun
  added := rfl
  streamed _ _ h := by cases h
  dones _ _ h := by cases h

theorem Records.mem_added (h : Records board past) (hk : board[k]? = some entry) :
    ∃ item, (k, item) ∈ Responses.added past ∧ item.kind = entry.kind ∧ item.id = entry.id := by
  have hmem : (k, entry.kind, entry.id) ∈
      board.mapIdx fun i entry => (i, entry.kind, entry.id) := by
    refine List.mem_of_getElem? (i := k) ?_
    rw [List.getElem?_mapIdx, hk]
    rfl
  rw [← h.added] at hmem
  obtain ⟨⟨i, item⟩, hitem, heq⟩ := List.mem_map.mp hmem
  simp only [Prod.mk.injEq] at heq
  obtain ⟨rfl, hkind, hid⟩ := heq
  exact ⟨item, hitem, hkind, hid⟩

theorem Records.entry_of_added (h : Records board past) {item : Item}
    (hmem : (k, item) ∈ Responses.added past) :
    ∃ entry, board[k]? = some entry ∧ entry.kind = item.kind ∧ entry.id = item.id := by
  have hmem' := List.mem_map_of_mem (f := fun a : Nat × Item => (a.1, a.2.kind, a.2.id)) hmem
  rw [h.added] at hmem'
  obtain ⟨i, hi, heq⟩ := List.mem_mapIdx.mp hmem'
  simp only [Prod.mk.injEq] at heq
  obtain ⟨rfl, hkind, hid⟩ := heq
  exact ⟨board[i], List.getElem?_eq_getElem hi, hkind, hid⟩

theorem Records.allowed (h : Records board past) (hk : board[k]? = some entry)
    (he : e.about? = some ⟨entry.kind, entry.id, k⟩) : Allowed past e := by
  intro about habout
  rw [he] at habout
  cases habout
  exact h.mem_added hk

theorem Records.about_lt (h : Records board past) (hmem : e ∈ past) (hk : e.isAbout k = true) :
    k < board.length := by
  obtain ⟨pre, post, rfl⟩ := List.append_of_mem hmem
  cases habout : e.about? with
  | none =>
    unfold Event.isAbout at hk
    rw [habout] at hk
    cases hk
  | some about =>
    obtain ⟨item, hitem, -⟩ := h.legal pre e post rfl about habout
    rw [(isAbout_iff habout k).mp hk] at hitem
    have hmem' : (k, item) ∈ Responses.added (pre ++ e :: post) := by
      unfold Responses.added at hitem ⊢
      rw [List.filterMap_append]
      exact List.mem_append_left _ hitem
    obtain ⟨entry, hentry, -⟩ := h.entry_of_added hmem'
    exact (List.getElem?_eq_some_iff.mp hentry).1

theorem Records.beyond (h : Records board past) (hk : board.length ≤ k) :
    Responses.streamed k past = "" ∧ donesAt k past = [] ∧ doneTexts k past = [] := by
  have hquiet : ∀ e ∈ past, e.isAbout k = false := by
    intro e he
    rw [Bool.eq_false_iff]
    exact fun habout => absurd (h.about_lt he habout) (by omega)
  have hfilter : past.filter (Event.isAbout k) = [] :=
    List.filter_eq_nil_iff.mpr fun e he => Bool.eq_false_iff.mp (hquiet e he)
  refine ⟨?_, by rw [donesAt, hfilter,
    List.filterMap_nil], by rw [doneTexts, hfilter, List.filterMap_nil]⟩
  clear hfilter h
  induction past using List.reverseRecOn with
  | nil => rfl
  | append_singleton past e ih =>
    rw [streamed_snoc,
      if_neg (Bool.eq_false_iff.mp (hquiet e (List.mem_append_right _ List.mem_cons_self)))]
    exact ih fun e he => hquiet e (List.mem_append_left _ he)

theorem Records.add (h : Records board past) (item : Item) :
    Records (board ++ [⟨item.kind, item.id, "", false⟩])
      (past ++ [.outputItemAdded board.length item]) where
  legal := h.legal.snoc nofun
  running := running_snoc h.running rfl
  added := by
    rw [added_snoc, List.map_append, h.added, List.mapIdx_append]
    simp [Event.added?]
  streamed := by
    intro k entry hk
    rw [streamed_snoc, if_neg (by simp [Event.isAbout, Event.about?])]
    rcases getElem?_snoc.mp hk with hk | ⟨rfl, rfl⟩
    · exact h.streamed k entry hk
    · exact (h.beyond (Nat.le_refl _)).1
  dones := by
    intro k entry hk
    rw [donesAt_snoc, if_neg (by simp [Event.isAbout, Event.about?]), List.append_nil]
    rcases getElem?_snoc.mp hk with hk | ⟨rfl, rfl⟩
    · exact h.dones k entry hk
    · rw [(h.beyond (Nat.le_refl _)).2.1]
      rfl

theorem getElem?_modify_cases {f : Entry → Entry} {j : Nat} {entry' : Entry}
    (hk : board[k]? = some entry) (hj : (board.modify k f)[j]? = some entry') :
    (k = j ∧ entry' = f entry) ∨ (k ≠ j ∧ board[j]? = some entry') := by
  rw [List.getElem?_modify] at hj
  by_cases hkj : k = j
  · subst hkj
    rw [hk] at hj
    exact .inl ⟨rfl, by simpa using hj.symm⟩
  · exact .inr ⟨hkj, by simpa [hkj] using hj⟩

theorem Records.modify (h : Records board past) (hk : board[k]? = some entry)
    (he : e.about? = some ⟨entry.kind, entry.id, k⟩) {f : Entry → Entry}
    (hkind : (f entry).kind = entry.kind) (hid : (f entry).id = entry.id)
    (htext : (f entry).text = entry.text ++ e.deltaText?.getD "")
    (hclosed : ((if entry.closed then [(entry.kind, entry.id)] else []) ++
      (e.done?.map Prod.snd).toList.map fun item => (item.kind, item.id)) =
        if (f entry).closed then [(entry.kind, entry.id)] else []) :
    Records (board.modify k f) (past ++ [e]) where
  legal := h.legal.snoc (h.allowed hk he)
  running := running_snoc h.running (isTerminal_of_about he)
  added := by
    rw [added_snoc, added?_eq_none he, Option.toList_none, List.append_nil, h.added]
    refine List.ext_getElem? fun i => ?_
    rw [List.getElem?_mapIdx, List.getElem?_mapIdx, List.getElem?_modify]
    by_cases hik : k = i
    · subst hik
      simp [hk, hkind, hid]
    · simp [hik]
  streamed := by
    intro j entry' hj
    rw [streamed_snoc]
    rcases getElem?_modify_cases hk hj with ⟨rfl, rfl⟩ | ⟨hkj, hold⟩
    · rw [if_pos ((isAbout_iff he k).mpr rfl), htext, ← h.streamed k entry hk]
    · rw [if_neg (fun habout => hkj ((isAbout_iff he j).mp habout))]
      exact h.streamed j entry' hold
  dones := by
    intro j entry' hj
    rw [donesAt_snoc, List.map_append]
    rcases getElem?_modify_cases hk hj with ⟨rfl, rfl⟩ | ⟨hkj, hold⟩
    · rw [if_pos ((isAbout_iff he k).mpr rfl), h.dones k entry hk, hclosed, hkind, hid]
    · rw [if_neg (fun habout => hkj ((isAbout_iff he j).mp habout)), List.map_nil, List.append_nil]
      exact h.dones j entry' hold

theorem Records.outside (h : Records board past) (habout : e.about? = none)
    (hadded : e.added? = none) (hterminal : e.isTerminal = false) :
    Records board (past ++ [e]) := by
  have hno (k : Nat) : ¬ e.isAbout k = true := by
    unfold Event.isAbout
    rw [habout]
    exact Bool.false_ne_true
  constructor
  case legal =>
    refine h.legal.snoc fun about h => ?_
    rw [habout] at h
    cases h
  case running => exact running_snoc h.running hterminal
  case added => rw [added_snoc, hadded, Option.toList_none, List.append_nil, h.added]
  case streamed =>
    intro k entry hk
    rw [streamed_snoc, if_neg (hno k), h.streamed k entry hk]
  case dones =>
    intro k entry hk
    rw [donesAt_snoc, if_neg (hno k), List.append_nil, h.dones k entry hk]

theorem Records.neutral (h : Records board past) (hk : board[k]? = some entry)
    (he : e.about? = some ⟨entry.kind, entry.id, k⟩) (hdelta : e.deltaText? = none)
    (hdone : e.done? = none) : Records board (past ++ [e]) := by
  have hid : board.modify k id = board := List.modify_id _ _
  rw [← hid]
  refine h.modify hk he rfl rfl ?_ ?_
  · rw [hdelta]
    exact (String.append_empty).symm
  · rw [hdone]
    exact List.append_nil _

theorem Records.write (h : Records board past) (hk : board[k]? = some entry)
    (he : e.about? = some ⟨entry.kind, entry.id, k⟩) {delta : String}
    (hdelta : e.deltaText? = some delta) (hdone : e.done? = none) :
    Records (board.modify k (Entry.write delta)) (past ++ [e]) := by
  refine h.modify hk he rfl rfl ?_ ?_
  · rw [hdelta]
    rfl
  · rw [hdone]
    exact List.append_nil _

theorem Records.close (h : Records board past) (hk : board[k]? = some entry)
    (hopen : entry.closed = false) {item : Item} (hkind : item.kind = entry.kind)
    (hid : item.id = entry.id) :
    Records (board.modify k Entry.close) (past ++ [.outputItemDone k item]) := by
  refine h.modify hk (by rw [Event.about?, hkind, hid]) rfl rfl ?_ ?_
  · exact (String.append_empty).symm
  · rw [hopen]
    exact congrArg₂ (fun a b => [(a, b)]) hkind hid

end Records

end Lobster.Responses
