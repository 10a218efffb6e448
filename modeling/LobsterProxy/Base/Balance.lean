import LobsterProxy.Base.Transcript

/-! Sequences of uses and results that are balanced id by id, and the pairs that a settled
transcript makes of its calls and answers. -/

namespace Lobster

inductive CallEvent (ι : Type) where
  | use (id : ι)
  | result (id : ι)
  deriving DecidableEq, Repr

namespace CallEvent
variable {ι : Type}

def id : CallEvent ι → ι
  | use id => id
  | result id => id

end CallEvent

namespace Step
variable {ι : Type}

def events : Step ι → List (CallEvent ι)
  | turn calls => calls.map .use
  | answer id => [.result id]

def Mentions (s : Step ι) (id : ι) : Prop := id ∈ s.events.map CallEvent.id

theorem mentions_turn {calls : List ι} {id : ι} : (turn calls).Mentions id ↔ id ∈ calls := by
  unfold Mentions events
  rw [List.map_map]
  exact iff_of_eq (congrArg (id ∈ ·) (List.map_id calls))

theorem mentions_answer {a id : ι} : (answer a).Mentions id ↔ a = id := by
  unfold Mentions events
  rw [List.map_singleton, List.mem_singleton]
  exact eq_comm

end Step

namespace Transcript
variable {ι : Type} [DecidableEq ι]

section Balance

/-- The last event of the id is a use. -/
def Pending (events : List (CallEvent ι)) (id : ι) : Prop :=
  (events.filter fun e => e.id = id).getLast? = some (.use id)

/-- A use of an id that is not pending, or a result of one that is. -/
def Fits (earlier : List (CallEvent ι)) : CallEvent ι → Prop
  | .use id => ¬Pending earlier id
  | .result id => Pending earlier id

/-- Each event fits what comes before it, and in the end no id is pending. -/
structure Balanced (events : List (CallEvent ι)) : Prop where
  fits : ∀ pre e post, events = pre ++ e :: post → Fits pre e
  closed : ∀ id, ¬Pending events id

/-- The same of the events that go on after others. -/
structure BalancedFrom (before events : List (CallEvent ι)) : Prop where
  fits : ∀ pre e post, events = pre ++ e :: post → Fits (before ++ pre) e
  closed : ∀ id, ¬Pending (before ++ events) id

variable {before events : List (CallEvent ι)} {e : CallEvent ι} {id : ι}

theorem balanced_iff_from : Balanced events ↔ BalancedFrom [] events :=
  ⟨fun h => ⟨h.fits, h.closed⟩, fun h => ⟨h.fits, h.closed⟩⟩

theorem not_pending_nil : ¬Pending ([] : List (CallEvent ι)) id := nofun

theorem pending_snoc :
    Pending (before ++ [e]) id ↔ if e.id = id then e = .use id else Pending before id := by
  unfold Pending
  rw [List.filter_append]
  split_ifs with hid
  · rw [List.filter_cons_of_pos (by simpa using hid), List.filter_nil, List.getLast?_concat,
      Option.some.injEq]
  · rw [List.filter_cons_of_neg (by simpa using hid), List.filter_nil, List.append_nil]

theorem pending_use {used : ι} :
    Pending (before ++ [.use used]) id ↔ used = id ∨ Pending before id := by
  rw [pending_snoc]
  show (if used = id then _ else _) ↔ _
  split_ifs with hid
  · simp [hid]
  · simp [hid]

theorem pending_result {answered : ι} :
    Pending (before ++ [.result answered]) id ↔ answered ≠ id ∧ Pending before id := by
  rw [pending_snoc]
  show (if answered = id then _ else _) ↔ _
  split_ifs with hid
  · simp [hid]
  · simp [hid]

theorem balancedFrom_cons :
    BalancedFrom before (e :: events) ↔ Fits before e ∧ BalancedFrom (before ++ [e]) events := by
  constructor
  · intro h
    refine ⟨?_, ?_, ?_⟩
    · have hfirst := h.fits [] e events rfl
      rw [List.append_nil] at hfirst
      exact hfirst
    · intro pre e' post hsplit
      rw [List.append_assoc]
      exact h.fits (e :: pre) e' post (by rw [hsplit, List.cons_append])
    · intro id
      rw [List.append_assoc]
      exact h.closed id
  · rintro ⟨hfirst, h⟩
    refine ⟨?_, ?_⟩
    · intro pre e' post hsplit
      cases pre with
      | nil =>
        obtain ⟨rfl, -⟩ := List.cons.inj hsplit
        rw [List.append_nil]
        exact hfirst
      | cons first pre =>
        obtain ⟨rfl, hrest⟩ := List.cons.inj hsplit
        have hlater := h.fits pre e' post hrest
        rw [List.append_assoc] at hlater
        exact hlater
    · intro id
      have hlast := h.closed id
      rw [List.append_assoc] at hlast
      exact hlast

/-- The ids that are pending after the events, unless one does not fit. -/
def accept : List ι → List (CallEvent ι) → Option (List ι)
  | opened, [] => some opened
  | opened, .use id :: rest => if id ∈ opened then none else accept (opened ++ [id]) rest
  | opened, .result id :: rest => if id ∈ opened then accept (opened.erase id) rest else none

/-- With the pending ids open, the rest is accepted exactly when it is balanced after what came
before. -/
theorem accept_iff {opened : List ι} (hnodup : opened.Nodup)
    (hopened : ∀ id, id ∈ opened ↔ Pending before id) :
    accept opened events = some [] ↔ BalancedFrom before events := by
  induction events generalizing before opened with
  | nil =>
    have hclosed : opened = [] ↔ ∀ id, ¬Pending before id := by
      simp only [List.eq_nil_iff_forall_not_mem, hopened]
    rw [accept, Option.some.injEq, hclosed]
    constructor
    · intro h
      refine ⟨fun pre e post hsplit => absurd (congrArg List.length hsplit) (by simp), ?_⟩
      rw [List.append_nil]
      exact h
    · intro h
      have hlast := h.closed
      rw [List.append_nil] at hlast
      exact hlast
  | cons e events ih =>
    rw [balancedFrom_cons]
    cases e with
    | use id =>
      rw [accept, Fits, ← hopened id]
      split_ifs with hmem
      · simp [hmem]
      · rw [and_iff_right hmem]
        have hfresh := List.disjoint_singleton.mpr hmem
        refine ih (hnodup.append (List.nodup_singleton id) hfresh) fun other => ?_
        rw [pending_use, List.mem_append, List.mem_singleton, hopened, or_comm, eq_comm]
    | result id =>
      rw [accept, Fits, ← hopened id]
      split_ifs with hmem
      · rw [and_iff_right hmem]
        refine ih (hnodup.erase id) fun other => ?_
        rw [pending_result, hnodup.mem_erase_iff, hopened, ne_comm]
      · simp [hmem]

theorem accept_uses {opened calls : List ι} (hnodup : opened.Nodup) :
    accept opened (calls.map .use ++ events) =
      if (opened ++ calls).Nodup then accept (opened ++ calls) events else none := by
  induction calls generalizing opened with
  | nil => rw [List.append_nil, if_pos hnodup, List.map_nil, List.nil_append]
  | cons id calls ih =>
    rw [List.map_cons, List.cons_append, accept]
    by_cases hmem : id ∈ opened
    · have hreused : ¬(opened ++ id :: calls).Nodup := fun h =>
        List.disjoint_of_nodup_append h hmem List.mem_cons_self
      rw [if_pos hmem, if_neg hreused]
    · rw [if_neg hmem,
        ih (hnodup.append (List.nodup_singleton id) (List.disjoint_singleton.mpr hmem)),
        List.append_assoc, List.singleton_append]

theorem settle_eq_accept {opened : List ι} (hnodup : opened.Nodup) (t : List (Step ι)) :
    settle opened t = accept opened (t.flatMap Step.events) := by
  induction t generalizing opened with
  | nil => rfl
  | cons s t ih =>
    rw [List.flatMap_cons]
    cases s with
    | turn calls =>
      rw [settle, Step.events, accept_uses hnodup]
      split_ifs with hcalls
      · exact ih hcalls
      · rfl
    | answer id =>
      rw [settle, Step.events, List.singleton_append, accept, ih (hnodup.erase id)]

/-- A transcript is settled exactly when its events are balanced. -/
theorem settle_iff_balanced (t : List (Step ι)) :
    settle [] t = some [] ↔ Balanced (t.flatMap Step.events) := by
  rw [settle_eq_accept List.nodup_nil, balanced_iff_from]
  exact accept_iff List.nodup_nil fun id => iff_of_false List.not_mem_nil not_pending_nil

end Balance

section Pairs
variable {t : List (Step ι)} {opened : List ι} {id : ι} {i i' k k' : Nat}

omit [DecidableEq ι] in
/-- The call at one place and the next step that mentions its id, an answer. -/
structure Paired (t : List (Step ι)) (i k : Nat) (id : ι) : Prop where
  call : ∃ calls, t[i]? = some (.turn calls) ∧ id ∈ calls
  answer : t[k]? = some (.answer id)
  later : i < k
  between : ∀ (m : Nat) s, i < m → m < k → t[m]? = some s → ¬s.Mentions id

omit [DecidableEq ι] in
theorem Paired.cons (h : Paired t i k id) (s : Step ι) : Paired (s :: t) (i + 1) (k + 1) id where
  call := h.call
  answer := h.answer
  later := Nat.succ_lt_succ h.later
  between m s' hi hk hs := by
    cases m with
    | zero => cases hi
    | succ m => exact h.between m s' (Nat.lt_of_succ_lt_succ hi) (Nat.lt_of_succ_lt_succ hk) hs

omit [DecidableEq ι] in
theorem Paired.answer_unique (h : Paired t i k id) (h' : Paired t i k' id) : k = k' := by
  rcases Nat.lt_trichotomy k k' with hlt | heq | hlt
  · exact absurd (Step.mentions_answer.mpr rfl) (h'.between k _ h.later hlt h.answer)
  · exact heq
  · exact absurd (Step.mentions_answer.mpr rfl) (h.between k' _ h'.later hlt h'.answer)

omit [DecidableEq ι] in
theorem Paired.call_unique (h : Paired t i k id) (h' : Paired t i' k id) : i = i' := by
  obtain ⟨calls, hcalls, hmem⟩ := h.call
  obtain ⟨calls', hcalls', hmem'⟩ := h'.call
  rcases Nat.lt_trichotomy i i' with hlt | heq | hlt
  · exact absurd (Step.mentions_turn.mpr hmem') (h.between i' _ hlt h'.later hcalls')
  · exact heq
  · exact absurd (Step.mentions_turn.mpr hmem) (h'.between i _ hlt h.later hcalls)

theorem exists_answer (h : settle opened t = some []) (hid : id ∈ opened) :
    ∃ k : Nat, t[k]? = some (.answer id) ∧
      ∀ (m : Nat) s, m < k → t[m]? = some s → ¬s.Mentions id := by
  induction t generalizing opened with
  | nil =>
    cases Option.some.inj h
    cases hid
  | cons s t ih =>
    cases s with
    | turn calls =>
      obtain ⟨hnodup, hrest⟩ := settle_turn_eq_some h
      obtain ⟨k, hk, hnone⟩ := ih hrest (List.mem_append_left _ hid)
      refine ⟨k + 1, hk, fun m s hm hs => ?_⟩
      cases m with
      | zero =>
        cases hs
        exact fun hmentions => List.disjoint_of_nodup_append hnodup hid
          (Step.mentions_turn.mp hmentions)
      | succ m => exact hnone m s (Nat.lt_of_succ_lt_succ hm) hs
    | answer a =>
      obtain ⟨-, hrest⟩ := settle_answer_eq_some h
      by_cases ha : a = id
      · subst ha
        exact ⟨0, rfl, nofun⟩
      · obtain ⟨k, hk, hnone⟩ := ih hrest ((List.mem_erase_of_ne (Ne.symm ha)).mpr hid)
        refine ⟨k + 1, hk, fun m s hm hs => ?_⟩
        cases m with
        | zero =>
          cases hs
          exact fun hmentions => ha (Step.mentions_answer.mp hmentions)
        | succ m => exact hnone m s (Nat.lt_of_succ_lt_succ hm) hs

theorem exists_paired_of_call (h : settle opened t = some []) {calls : List ι}
    (hcalls : t[i]? = some (.turn calls)) (hid : id ∈ calls) : ∃ k, Paired t i k id := by
  induction t generalizing opened i with
  | nil => cases hcalls
  | cons s t ih =>
    cases i with
    | zero =>
      cases hcalls
      obtain ⟨k, hk, hnone⟩ :=
        exists_answer (settle_turn_eq_some h).2 (List.mem_append_right opened hid)
      refine ⟨k + 1, ⟨calls, rfl, hid⟩, hk, Nat.succ_pos k, fun m s hm hmk hs => ?_⟩
      cases m with
      | zero => cases hm
      | succ m => exact hnone m s (Nat.lt_of_succ_lt_succ hmk) hs
    | succ i =>
      have hrest : ∃ opened, settle opened t = some [] := by
        cases s with
        | turn calls => exact ⟨_, (settle_turn_eq_some h).2⟩
        | answer a => exact ⟨_, (settle_answer_eq_some h).2⟩
      obtain ⟨opened, hrest⟩ := hrest
      obtain ⟨k, hk⟩ := ih hrest hcalls
      exact ⟨k + 1, hk.cons s⟩

theorem open_or_paired (hnodup : opened.Nodup) (h : settle opened t = some [])
    (hk : t[k]? = some (.answer id)) :
    (id ∈ opened ∧ ∀ (m : Nat) s, m < k → t[m]? = some s → ¬s.Mentions id) ∨
    ∃ i, Paired t i k id := by
  induction t generalizing opened k with
  | nil => cases hk
  | cons s t ih =>
    cases k with
    | zero =>
      cases hk
      exact .inl ⟨(settle_answer_eq_some h).1, nofun⟩
    | succ k =>
      cases s with
      | turn calls =>
        obtain ⟨hcalls, hrest⟩ := settle_turn_eq_some h
        rcases ih hcalls hrest hk with ⟨hid, hnone⟩ | ⟨i, hi⟩
        · by_cases hmem : id ∈ calls
          · refine .inr ⟨0, ⟨calls, rfl, hmem⟩, hk, Nat.succ_pos k, fun m s hm hmk hs => ?_⟩
            cases m with
            | zero => cases hm
            | succ m => exact hnone m s (Nat.lt_of_succ_lt_succ hmk) hs
          · refine .inl ⟨(List.mem_append.mp hid).resolve_right hmem, fun m s hm hs => ?_⟩
            cases m with
            | zero =>
              cases hs
              exact fun hmentions => hmem (Step.mentions_turn.mp hmentions)
            | succ m => exact hnone m s (Nat.lt_of_succ_lt_succ hm) hs
        · exact .inr ⟨i + 1, hi.cons _⟩
      | answer a =>
        obtain ⟨-, hrest⟩ := settle_answer_eq_some h
        rcases ih (hnodup.erase a) hrest hk with ⟨hid, hnone⟩ | ⟨i, hi⟩
        · obtain ⟨hne, hid⟩ := hnodup.mem_erase_iff.mp hid
          refine .inl ⟨hid, fun m s hm hs => ?_⟩
          cases m with
          | zero =>
            cases hs
            exact fun hmentions => hne (Step.mentions_answer.mp hmentions).symm
          | succ m => exact hnone m s (Nat.lt_of_succ_lt_succ hm) hs
        · exact .inr ⟨i + 1, hi.cons _⟩

theorem exists_paired_of_answer (h : settle [] t = some []) (hk : t[k]? = some (.answer id)) :
    ∃ i, Paired t i k id :=
  (open_or_paired List.nodup_nil h hk).resolve_left fun hopen => List.not_mem_nil hopen.1

theorem nodup_of_turn (h : settle opened t = some []) {calls : List ι} (hcalls : .turn calls ∈ t) :
    calls.Nodup := by
  induction t generalizing opened with
  | nil => cases hcalls
  | cons s t ih =>
    cases s with
    | turn first =>
      obtain ⟨hnodup, hrest⟩ := settle_turn_eq_some h
      rcases List.mem_cons.mp hcalls with heq | hmem
      · cases heq
        exact hnodup.of_append_right
      · exact ih hrest hmem
    | answer a =>
      rcases List.mem_cons.mp hcalls with heq | hmem
      · cases heq
      · exact ih (settle_answer_eq_some h).2 hmem

end Pairs

end Transcript
end Lobster
