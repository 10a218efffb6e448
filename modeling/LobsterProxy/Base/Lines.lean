import Mathlib.Data.List.Basic
import Mathlib.Data.List.DropRight
import Mathlib.Tactic.SplitIfs

/-! A buffer is drained line by line, over arbitrary types of symbols, states and
outputs: a step sees one complete line at a time and may stop the drain. -/

namespace Lobster

/-- A step on a line: the next state, what is put out and whether to stop. -/
abbrev LineStep (α σ ε : Type) := List α → σ → (σ × List ε) × Bool

/-- What stays in the buffer is the unfinished line, or all that follows the stop. -/
structure Drained (α σ ε : Type) where
  state : σ
  out : List ε
  stopped : Bool
  buffer : List α

namespace Lines
variable {α σ τ ε δ : Type} [DecidableEq α]

/-- `line` is what has been read of the line so far. -/
def drain (newline : α) (step : LineStep α σ ε) : List α → List α → σ → Drained α σ ε
  | line, [], s => ⟨s, [], false, line⟩
  | line, a :: rest, s =>
    if a = newline then
      let taken := step line s
      if taken.2 then ⟨taken.1.1, taken.1.2, true, rest⟩
      else
        let drained := drain newline step [] rest taken.1.1
        { drained with out := taken.1.2 ++ drained.out }
    else drain newline step (line ++ [a]) rest s

variable {R : σ → List ε → τ → List δ → Prop} {step : LineStep α σ ε} {step' : LineStep α τ δ}

/-- On every line both steps stop or neither does, and the relation between states and
all that has been put out survives the line. -/
def InStep (R : σ → List ε → τ → List δ → Prop) (step : LineStep α σ ε) (step' : LineStep α τ δ) :
    Prop :=
  ∀ line s out t out', R s out t out' →
    R (step line s).1.1 (out ++ (step line s).1.2) (step' line t).1.1 (out' ++ (step' line t).1.2) ∧
      (step line s).2 = (step' line t).2

theorem drain_inStep (h : InStep R step step') (newline : α) (buffer line : List α) {s : σ} {t : τ}
    {out : List ε} {out' : List δ} (hR : R s out t out') :
    let d := drain newline step line buffer s
    let d' := drain newline step' line buffer t
    R d.state (out ++ d.out) d'.state (out' ++ d'.out) ∧ d.stopped = d'.stopped ∧
      d.buffer = d'.buffer := by
  induction buffer generalizing line s t out out' with
  | nil =>
    refine ⟨?_, rfl, rfl⟩
    show R s (out ++ []) t (out' ++ [])
    rw [List.append_nil, List.append_nil]
    exact hR
  | cons a rest ih =>
    obtain ⟨hnext, hstop⟩ := h line s out t out' hR
    simp only [drain]
    by_cases ha : a = newline
    · rw [if_pos ha, if_pos ha, ← hstop]
      split_ifs
      · exact ⟨hnext, rfl, rfl⟩
      · obtain ⟨hrest, hflags⟩ := ih [] hnext
        rw [← List.append_assoc, ← List.append_assoc]
        exact ⟨hrest, hflags⟩
    · rw [if_neg ha, if_neg ha]
      exact ih (line ++ [a]) hR

theorem drain_keeps {inv : σ → Prop} (h : ∀ line s, inv s → inv (step line s).1.1) (newline : α)
    (buffer line : List α) {s : σ} (hs : inv s) : inv (drain newline step line buffer s).state := by
  induction buffer generalizing line s with
  | nil => exact hs
  | cons a rest ih =>
    simp only [drain]
    split_ifs
    · exact h line s hs
    · exact ih [] (h line s hs)
    · exact ih (line ++ [a]) hs

section Feeding
variable {β : Type} {newline : α} {step : LineStep α σ ε}

/-- The buffer is drained each time a chunk has been added to it; what comes with a chunk
touches the state first and goes into the step. -/
def feed (newline : α) (touch : β → σ → σ) (step : β → LineStep α σ ε) :
    List α → List (β × List α) → σ → Drained α σ ε
  | buffer, [], s => ⟨s, [], false, buffer⟩
  | buffer, (b, chunk) :: rest, s =>
    let drained := drain newline (step b) [] (buffer ++ chunk) (touch b s)
    if drained.stopped then drained
    else
      let fed := feed newline touch step drained.buffer rest drained.state
      { fed with out := drained.out ++ fed.out }

theorem feed_inStep {touch : β → σ → σ} {touch' : β → τ → τ} {step : β → LineStep α σ ε}
    {step' : β → LineStep α τ δ}
    (htouch : ∀ b s out t out', R s out t out' → R (touch b s) out (touch' b t) out')
    (h : ∀ b, InStep R (step b) (step' b)) (newline : α) (buffer : List α)
    (chunks : List (β × List α)) {s : σ} {t : τ} {out : List ε} {out' : List δ}
    (hR : R s out t out') :
    let fed := feed newline touch step buffer chunks s
    let fed' := feed newline touch' step' buffer chunks t
    R fed.state (out ++ fed.out) fed'.state (out' ++ fed'.out) ∧ fed.stopped = fed'.stopped := by
  induction chunks generalizing buffer s t out out' with
  | nil =>
    refine ⟨?_, rfl⟩
    show R s (out ++ []) t (out' ++ [])
    rw [List.append_nil, List.append_nil]
    exact hR
  | cons chunk rest ih =>
    obtain ⟨hdrain, hstop, hleft⟩ :=
      drain_inStep (h chunk.1) newline (buffer ++ chunk.2) [] (htouch chunk.1 s out t out' hR)
    simp only [feed, ← hstop, ← hleft]
    split_ifs with hdone
    · exact ⟨hdrain, hstop⟩
    · rw [← List.append_assoc, ← List.append_assoc]
      exact ih _ hdrain

def through (step : LineStep α σ ε) : List (List α) → σ → (σ × List ε) × Bool
  | [], s => ((s, []), false)
  | line :: rest, s =>
    let taken := step line s
    if taken.2 then taken
    else
      let later := through step rest taken.1.1
      ((later.1.1, taken.1.2 ++ later.1.2), later.2)

theorem drain_append (line xs ys : List α) (s : σ) :
    drain newline step line (xs ++ ys) s =
      let first := drain newline step line xs s
      if first.stopped then { first with buffer := first.buffer ++ ys }
      else
        let second := drain newline step first.buffer ys first.state
        { second with out := first.out ++ second.out } := by
  induction xs generalizing line s with
  | nil => rfl
  | cons a rest ih =>
    rw [List.cons_append]
    simp only [drain]
    by_cases ha : a = newline
    · simp only [if_pos ha]
      by_cases hstop : (step line s).2 = true
      · simp only [if_pos hstop, if_true]
      · simp only [if_neg hstop, ih]
        cases hlater : (drain newline step [] rest (step line s).1.1).stopped with
        | true => rfl
        | false => simp only [Bool.false_eq_true, if_false, List.append_assoc]
    · simp only [if_neg ha]
      exact ih (line ++ [a]) s

theorem drain_reread {line : List α} (hline : newline ∉ line) (before ys : List α) (s : σ) :
    drain newline step before (line ++ ys) s = drain newline step (before ++ line) ys s := by
  induction line generalizing before with
  | nil => rw [List.nil_append, List.append_nil]
  | cons a line ih =>
    have hne : a ≠ newline := fun h => hline (h ▸ List.mem_cons_self)
    have hrest : newline ∉ line := fun h => hline (List.mem_cons_of_mem a h)
    rw [List.cons_append, drain, if_neg hne, ih hrest, List.append_assoc, List.singleton_append]

theorem newline_not_mem_buffer {line : List α} (hline : newline ∉ line) (xs : List α) (s : σ)
    (h : (drain newline step line xs s).stopped = false) :
    newline ∉ (drain newline step line xs s).buffer := by
  induction xs generalizing line s with
  | nil => exact hline
  | cons a rest ih =>
    simp only [drain] at h ⊢
    split_ifs at h ⊢ with ha hstop
    · exact ih List.not_mem_nil _ h
    · refine ih (fun hmem => ?_) _ h
      rcases List.mem_append.mp hmem with hmem | hmem
      · exact hline hmem
      · exact ha (List.mem_singleton.mp hmem).symm

/-- It does not matter how the input is cut into chunks. -/
theorem feed_eq_drain {buffer : List α} (hbuffer : newline ∉ buffer) (chunks : List (β × List α))
    (s : σ) :
    let fed := feed newline (fun _ s => s) (fun _ => step) buffer chunks s
    let drained := drain newline step buffer (chunks.flatMap Prod.snd) s
    fed.state = drained.state ∧ fed.out = drained.out ∧ fed.stopped = drained.stopped := by
  induction chunks generalizing buffer s with
  | nil => exact ⟨rfl, rfl, rfl⟩
  | cons chunk rest ih =>
    have hreread := @drain_reread _ _ _ _ newline step _ hbuffer [] chunk.2 s
    rw [List.nil_append] at hreread
    simp only [feed, List.flatMap_cons, drain_append, hreread]
    cases hstop : (drain newline step buffer chunk.2 s).stopped with
    | true => exact ⟨rfl, rfl, hstop⟩
    | false =>
      obtain ⟨hstate, hout, hstopped⟩ :=
        ih (newline_not_mem_buffer hbuffer chunk.2 s hstop)
          (drain newline step buffer chunk.2 s).state
      simp only [Bool.false_eq_true, if_false]
      exact ⟨hstate, congrArg (_ ++ ·) hout, hstopped⟩

/-- A drain takes the complete lines of the input; the unfinished last one is left. -/
theorem drain_eq_through (line buffer : List α) (s : σ) :
    let drained := drain newline step line buffer s
    ((drained.state, drained.out), drained.stopped) =
      through step (buffer.splitOnPPrepend (fun a => a == newline) line.reverse).dropLast s := by
  induction buffer generalizing line s with
  | nil => simp [drain, through]
  | cons a rest ih =>
    simp only [drain]
    by_cases ha : a = newline
    · have hne := List.splitOnPPrepend_ne_nil (fun a => a == newline) rest []
      rw [List.splitOnPPrepend_cons_pos (by simpa using ha), ← List.splitOnPPrepend_nil_right,
        List.dropLast_cons_of_ne_nil hne, List.reverse_reverse, if_pos ha, through]
      by_cases hstop : (step line s).2 = true
      · simp only [if_pos hstop]
        rw [← hstop]
      · have hrest := ih [] (step line s).1.1
        rw [List.reverse_nil] at hrest
        simp only [if_neg hstop, ← hrest]
    · rw [List.splitOnPPrepend_cons_neg (by simpa using ha), if_neg ha, ih]
      simp

end Feeding

section Retained
variable {β : Type} {newline : α} {step : LineStep α σ ε} {line xs ys buffer past : List α}
    {s start : σ} {n : Nat}
  {chunks : List (β × List α)}

def unended (newline : α) (xs : List α) : List α := xs.rtakeWhile fun a => a ≠ newline

def buffers (newline : α) (touch : β → σ → σ) (step : β → LineStep α σ ε) :
    List α → List (β × List α) → σ → List (List α)
  | _, [], _ => []
  | buffer, (b, chunk) :: rest, s =>
    let drained := drain newline (step b) [] (buffer ++ chunk) (touch b s)
    drained.buffer :: if drained.stopped then
      [] else buffers newline touch step drained.buffer rest drained.state

theorem buffers_inStep {touch : β → σ → σ} {touch' : β → τ → τ} {step : β → LineStep α σ ε}
    {step' : β → LineStep α τ δ}
    (htouch : ∀ b s out t out', R s out t out' → R (touch b s) out (touch' b t) out')
    (h : ∀ b, InStep R (step b) (step' b)) (newline : α) (buffer : List α)
    (chunks : List (β × List α)) {s : σ} {t : τ} {out : List ε} {out' : List δ}
    (hR : R s out t out') :
    buffers newline touch step buffer chunks s = buffers newline touch' step' buffer chunks t := by
  induction chunks generalizing buffer s t out out' with
  | nil => rfl
  | cons chunk rest ih =>
    obtain ⟨hdrain, hstop, hleft⟩ :=
      drain_inStep (h chunk.1) newline (buffer ++ chunk.2) [] (htouch chunk.1 s out t out' hR)
    rw [buffers, buffers, ← hstop, ← hleft, ih _ hdrain]

theorem unended_cons_newline (line ys : List α) :
    unended newline (line ++ newline :: ys) = unended newline ys := by
  induction ys using List.reverseRecOn with
  | nil => simp [unended]
  | append_singleton ys a ih =>
    unfold unended at ih ⊢
    rw [← List.cons_append, ← List.append_assoc, List.rtakeWhile_concat, List.rtakeWhile_concat, ih]

theorem drain_buffer (hline : newline ∉ line) (h : (drain newline step line xs s).stopped = false) :
    (drain newline step line xs s).buffer = unended newline (line ++ xs) := by
  induction xs generalizing line s with
  | nil =>
    have hall : ∀ a ∈ line, decide (a ≠ newline) = true := by
      intro a ha
      simpa using fun heq : a = newline => hline (heq ▸ ha)
    rw [List.append_nil]
    exact (List.rtakeWhile_eq_self_iff.mpr hall).symm
  | cons a rest ih =>
    simp only [drain] at h ⊢
    split_ifs at h ⊢ with ha hstop
    · rw [ha, unended_cons_newline]
      exact ih List.not_mem_nil h
    · have hnext : newline ∉ line ++ [a] := by
        rw [List.mem_append, List.mem_singleton]
        exact not_or.mpr ⟨hline, fun heq => ha heq.symm⟩
      rw [ih hnext h, List.append_assoc]
      rfl

theorem drain_suffix (h : (drain newline step line xs s).stopped = true) :
    (drain newline step line xs s).buffer <:+ xs := by
  induction xs generalizing line s with
  | nil => cases h
  | cons a rest ih =>
    simp only [drain] at h ⊢
    split_ifs at h ⊢ with ha hstop
    · exact List.suffix_cons a rest
    · exact (ih h).trans (List.suffix_cons a rest)
    · exact (ih h).trans (List.suffix_cons a rest)

theorem stopped_append (h : (drain newline step line xs s).stopped = true) (ys : List α) :
    (drain newline step line (xs ++ ys) s).stopped = true := by
  rw [drain_append]
  simp [h]

/-- The buffers of a loop are bounded if and only if the unfinished lines are, up to the stop. -/
theorem buffers_le_iff (hstart : (drain newline step [] past start).stopped = false)
    (hbuffer : (drain newline step [] past start).buffer = buffer)
    (hstate : (drain newline step [] past start).state = s)
    (hchunks : ∀ chunk ∈ chunks, chunk.2.length ≤ n) :
    (∀ kept ∈ buffers newline (fun _ s => s) (fun _ => step) buffer chunks s, kept.length ≤ n) ↔
      ∀ k < chunks.length,
        (drain newline step []
          (past ++ (chunks.take (k + 1)).flatMap Prod.snd) start).stopped = false →
        (unended newline (past ++ (chunks.take (k + 1)).flatMap Prod.snd)).length ≤ n := by
  induction chunks generalizing past buffer s with
  | nil => simp [buffers]
  | cons chunk rest ih =>
    obtain ⟨hchunk, hrest⟩ := List.forall_mem_cons.mp hchunks
    have hfree : newline ∉ buffer :=
      hbuffer ▸ newline_not_mem_buffer List.not_mem_nil past start hstart
    have hreread := @drain_reread _ _ _ _ newline step _ hfree [] chunk.2 s
    rw [List.nil_append] at hreread
    -- the input up to this chunk
    have hall := @drain_append _ _ _ _ newline step [] past chunk.2 start
    simp only [hstart, Bool.false_eq_true, if_false, hbuffer, hstate] at hall
    simp only [buffers, hreread]
    have hfirst (k : Nat) : past ++ ((chunk :: rest).take (k + 1)).flatMap Prod.snd =
        past ++ chunk.2 ++ (rest.take k).flatMap Prod.snd := by
      rw [List.take_succ_cons, List.flatMap_cons, List.append_assoc]
    simp only [hfirst, List.length_cons]
    cases hstop : (drain newline step buffer chunk.2 s).stopped with
    | true =>
      have hdone : (drain newline step [] (past ++ chunk.2) start).stopped = true := by
        rw [hall]
        exact hstop
      have hlength := (drain_suffix hstop).length_le
      constructor
      · intro _ k _ hopen
        rw [stopped_append hdone] at hopen
        cases hopen
      · intro _ kept hkept
        obtain rfl := List.mem_singleton.mp hkept
        exact hlength.trans hchunk
    | false =>
      have hopen : (drain newline step [] (past ++ chunk.2) start).stopped = false := by
        rw [hall]
        exact hstop
      have hleft : (drain newline step [] (past ++ chunk.2) start).buffer =
          (drain newline step buffer chunk.2 s).buffer := by
        rw [hall]
      have hnext : (drain newline step [] (past ++ chunk.2) start).state =
          (drain newline step buffer chunk.2 s).state := by
        rw [hall]
      have hkept := drain_buffer List.not_mem_nil hopen
      rw [List.nil_append, hleft] at hkept
      rw [if_neg Bool.false_ne_true, List.forall_mem_cons, ih hopen hleft hnext hrest, hkept]
      constructor
      · rintro ⟨hshort, hlater⟩ k hk
        cases k with
        | zero => simpa using fun _ => hshort
        | succ k => exact hlater k (Nat.lt_of_succ_lt_succ hk)
      · intro h
        have hshort := h 0 (Nat.succ_pos _)
        simp only [List.take_zero, List.flatMap_nil, List.append_nil] at hshort
        exact ⟨hshort hopen, fun k hk => h (k + 1) (Nat.succ_lt_succ hk)⟩

end Retained

end Lines
end Lobster
