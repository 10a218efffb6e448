import LobsterProxy.Deepseek.Canonical
import LobsterProxy.Deepseek.CanonicalText
import LobsterProxy.Base.Serializer
import Mathlib.Tactic.NormNum

/-! What the rewriting of an arguments string keeps of the document that it denotes: all of it
where no key is written twice and every number survives being read, held and written. -/

namespace Lobster.Deepseek
open JsonText Leading

section Places

def callArguments (call : Json) : Option String :=
  (call.get? "function").bind fun f => f.getStr? "arguments"

def messageArguments (message : Json) (j : Nat) : Option String :=
  (((message.get? "tool_calls").bind Json.asArray).bind fun calls => calls[j]?).bind callArguments

def argumentsAt (body : Fields) (i j : Nat) : Option String :=
  (((body.get? "messages").bind Json.asArray).bind fun messages => messages[i]?).bind
    fun m => messageArguments m j

/-- The string stays, or it is the canonical text of what it was parsed as. -/
def Rewritten (serde : Serde) (old new : String) : Prop :=
  new = old ∨ ∃ parsed, serde.fromStr old = some parsed ∧ new = canonicalJsonString serde parsed

variable {serde : Serde} {old new : String}

theorem rewritten_of_kept {read : Option String} (hold : read = some old) (hnew : read = some new) :
    Rewritten serde old new := by
  rw [hold] at hnew
  exact .inl (Option.some.inj hnew).symm

theorem callArguments_set {call : Json} {function f : Json}
    (h : call.get? "function" = some function) :
    callArguments (call.set "function" f) = f.getStr? "arguments" := by
  obtain ⟨fields, rfl⟩ := Json.obj_of_get? h
  unfold callArguments Json.set
  dsimp only
  rw [Json.get?_obj, Fields.get?_insert_self, Option.bind_some]

theorem rewritten_call {call : Json} (hold : callArguments call = some old)
    (hnew : callArguments (canonicalizeCall serde call).1 = some new) :
    Rewritten serde old new := by
  unfold canonicalizeCall at hnew
  split at hnew
  case h_1 function hfunction =>
    split at hnew
    case h_1 arguments harguments =>
      have hread : callArguments call = some arguments := by
        unfold callArguments
        rw [hfunction]
        exact harguments
      rw [hold] at hread
      cases hread
      split at hnew
      case h_1 parsed hparsed =>
        dsimp only at hnew
        split_ifs at hnew
        · rw [callArguments_set hfunction, Json.getStr?, Json.get?_obj,
            Fields.get?_insert_self] at hnew
          exact .inr ⟨parsed, hparsed, (Option.some.inj hnew).symm⟩
        · exact rewritten_of_kept hold hnew
      case h_2 => exact rewritten_of_kept hold hnew
    case h_2 => exact rewritten_of_kept hold hnew
  case h_2 => exact rewritten_of_kept hold hnew

theorem rewritten_message {message : Json} {j : Nat}
    (hold : messageArguments message j = some old)
    (hnew : messageArguments (canonicalizeMessage serde message).1 j = some new) :
    Rewritten serde old new := by
  unfold canonicalizeMessage at hnew
  split_ifs at hnew
  · split at hnew
    case h_1 calls hcalls =>
      obtain ⟨fields, rfl⟩ := Json.obj_of_get? hcalls
      unfold messageArguments at hold hnew
      dsimp only [Json.set] at hnew
      rw [hcalls, Option.bind_some, Json.asArray_arr, Option.bind_some] at hold
      rw [Json.get?_obj, Fields.get?_insert_self, Option.bind_some, Json.asArray_arr,
        Option.bind_some, List.map_map, List.getElem?_map] at hnew
      obtain ⟨call, hcall, hold⟩ := Option.bind_eq_some_iff.mp hold
      rw [hcall, Option.map_some, Option.bind_some] at hnew
      exact rewritten_call hold hnew
    case h_2 => exact rewritten_of_kept hold hnew
  · exact rewritten_of_kept hold hnew

/-- The pass over the history leaves each arguments string or writes its canonical text. -/
theorem rewritten_at {body : Fields} {i j : Nat} (hold : argumentsAt body i j = some old)
    (hnew : argumentsAt (canonicalizeToolArguments serde body).1 i j = some new) :
    Rewritten serde old new := by
  obtain ⟨message, hmessage, hold⟩ := Option.bind_eq_some_iff.mp hold
  obtain ⟨messages, hmessages, hi⟩ := Option.bind_eq_some_iff.mp hmessage
  obtain ⟨value, hvalue, harray⟩ := Option.bind_eq_some_iff.mp hmessages
  rw [Json.asArray_eq_some.mp harray] at hvalue
  unfold argumentsAt at hnew
  rw [get?_canonicalizeToolArguments serde hvalue, Option.bind_some, Json.asArray_arr,
    Option.bind_some] at hnew
  unfold canonicalMessages at hnew
  rw [getElem?_mapFirst, hi] at hnew
  split_ifs at hnew
  · exact rewritten_message hold hnew
  · exact rewritten_of_kept hold hnew

end Places

section Documents

def SameScalar : Scalar Literal → Scalar Literal → Prop
  | .num l, .num l' => l.value = l'.value
  | s, s' => s = s'

/-- An integer of 64 bits, or a shortest decimal that is read as its nearest double. -/
def Exact (l : Literal) : Prop := l.inRange = true ∨ (l.ReadsNearest ∧ l.IsShortest)

variable (tokens : List Char → Option (String × List Char))

/-- Both strings are documents, the same one up to the order of the keys, with numbers of the
same value. -/
def SameDocument (old new : String) : Prop :=
  ∃ t t', read (exactReader tokens) old.toList = some t ∧
    read (exactReader tokens) new.toList = some t' ∧ Same SameScalar t t'

/-- A document with distinct keys and exact numbers. -/
def Survives (text : String) : Prop :=
  ∃ t, read (exactReader tokens) text.toList = some t ∧ t.distinct = true ∧
    ∀ l, .num l ∈ t.leaves → Exact l

variable {tokens} {rendered : F64 → Literal} {serde : Serde}

theorem sameScalar_reloaded (h : serde.Plain tokens rendered) {s : Scalar Literal}
    (hreadable : ∀ l, s = .num l → l.readable = true) :
    SameScalar s (s.map (loadedNumber Literal.double) |>.map (renderedNumber rendered)) ↔
      ∀ l, s = .num l → Exact l := by
  cases s with
  | num l =>
    have hread : (∀ l', Scalar.num l = .num l' → Exact l') ↔ Exact l :=
      ⟨fun h => h l rfl, fun h l' heq => Scalar.num.inj heq ▸ h⟩
    rw [hread]
    unfold Exact
    show l.value = (renderedNumber rendered (loadedNumber Literal.double l)).value ↔ _
    cases hrange : l.inRange with
    | true => simp [rendered_loaded hrange]
    | false =>
      obtain ⟨f, hf⟩ := Option.isSome_iff_exists.mp ((readable_iff hrange).mp (hreadable l rfl))
      have hdouble : l.double = f := by
        unfold Literal.double
        rw [hf, Option.getD_some]
      rw [loaded_of_not_inRange hrange, renderedNumber, hdouble, h.shortest,
        or_iff_right Bool.false_ne_true, eq_comm, Literal.shortestValue_eq_iff hf]
  | _ =>
    refine ⟨fun _ l h => ?_, fun _ => rfl⟩
    cases h

/-- The canonical text of what a string was parsed as denotes the same document exactly when
the document survives. -/
theorem sameDocument_canonical_iff (h : serde.Plain tokens rendered) {old : String} {v : Json}
    (hparsed : serde.fromStr old = some v) :
    SameDocument tokens old (canonicalJsonString serde v) ↔ Survives tokens old := by
  obtain ⟨t, hold, hreadable, rfl⟩ := h.parses old v hparsed
  have hnew :=
    read_print h.writes (Json.ofDoc (t.map (Scalar.map (loadedNumber Literal.double)))).doc.sort
  rw [← toList_writeCanonical, ← canonicalJsonString] at hnew
  have hsame : SameDocument tokens old
      (canonicalJsonString serde (Json.ofDoc (t.map (Scalar.map (loadedNumber Literal.double))))) ↔
        Same SameScalar t
          ((Json.ofDoc (t.map (Scalar.map (loadedNumber Literal.double)))).doc.sort.map
          (Scalar.map (renderedNumber rendered))) := by
    unfold SameDocument
    simp [hold, hnew]
  have hsurvives : Survives tokens old ↔ t.distinct = true ∧ ∀ l, .num l ∈ t.leaves → Exact l := by
    unfold Survives
    simp [hold]
  rw [hsame, hsurvives, Json.same_reloaded_iff]
  refine and_congr_right fun _ => ⟨fun hleaves l hl => ?_, fun hexact s hs => ?_⟩
  · exact (sameScalar_reloaded h fun l' heq => hreadable l' (heq ▸ hl)).mp (hleaves _ hl) l rfl
  · exact (sameScalar_reloaded h fun l heq => hreadable l (heq ▸ hs)).mpr
      fun l heq => hexact l (heq ▸ hs)

/-- A rewritten arguments string denotes the document of the old one exactly when no key is
written twice in an object of it and its numbers are exact. -/
theorem canonicalizeToolArguments_sameDocument_iff (h : serde.Plain tokens rendered)
    (body : Fields) (i j : Nat) (old new : String) (hold : argumentsAt body i j = some old)
    (hnew : argumentsAt (canonicalizeToolArguments serde body).1 i j = some new)
    (hrewritten : new ≠ old) :
    SameDocument tokens old new ↔ Survives tokens old := by
  obtain ⟨parsed, hparsed, rfl⟩ := (rewritten_at hold hnew).resolve_left hrewritten
  exact sameDocument_canonical_iff h hparsed

end Documents

section Cases

def calledWith (arguments : String) : Fields :=
  [("messages", .arr [.obj [("role", .str "assistant"), ("tool_calls", .arr [.obj [("function",
    .obj [("arguments", .str arguments)])]])], .obj [("role", .str "user")]])]

theorem canonicalizeToolArguments_sameDocument_iff_pair :
    SameDocument unquote "\x7b\"b\":1,\"a\":[2.50]\x7d" "\x7b\"a\":[2.5],\"b\":1\x7d" ↔
      Survives unquote "\x7b\"b\":1,\"a\":[2.50]\x7d" :=
  canonicalizeToolArguments_sameDocument_iff Serde.plain_plain
    (calledWith "\x7b\"b\":1,\"a\":[2.50]\x7d") 0 0 _ _
    (by decide) (by decide +kernel) (by decide)

theorem not_sameDocument_of_value {old : String} {v : Json} {l : Literal} {f : F64}
    (hparsed : Serde.plain.fromStr old = some v)
    (hleaves : (read (exactReader unquote) old.toList).map Doc.leaves = some [.num l])
    (hrange : l.inRange = false) (hread : l.readDouble = some f)
      (hvalue : f.literal.value ≠ l.value) :
    ¬SameDocument unquote old (canonicalJsonString .plain v) := by
  rw [sameDocument_canonical_iff Serde.plain_plain hparsed]
  rintro ⟨t, ht, -, hexact⟩
  rw [ht, Option.map_some, Option.some_inj] at hleaves
  rcases hexact l (hleaves ▸ List.mem_singleton_self _) with hin | hkept
  · exact Bool.noConfusion (hrange.symm.trans hin)
  · exact hvalue (f.value_literal.trans ((Literal.shortestValue_eq_iff hread).mpr hkept))

/-- The integer `2 ^ 64 + 1` and the number `3e23` are rewritten into other numbers. -/
theorem not_sameDocument_wideInteger : Serde.Plain unquote F64.literal .plain ∧
    argumentsAt (calledWith "[18446744073709551617]") 0 0 = some "[18446744073709551617]" ∧
    argumentsAt (canonicalizeToolArguments .plain (calledWith "[18446744073709551617]")).1 0 0 =
      some "[1.8446744073709552e+19]" ∧
    ¬SameDocument unquote "[18446744073709551617]" "[1.8446744073709552e+19]" ∧
    argumentsAt (canonicalizeToolArguments .plain (calledWith "[3e23]")).1 0 0 =
      some "[2.9999999999999997e+23]" ∧
    ¬SameDocument unquote "[3e23]" "[2.9999999999999997e+23]" := by
  refine ⟨Serde.plain_plain, by decide, by decide +kernel, ?_, by decide +kernel, ?_⟩
  · have hvalue : (⟨false, 1087, 0⟩ : F64).literal =
        ⟨false, 1, [8, 4, 4, 6, 7, 4, 4, 0, 7, 3, 7, 0, 9, 5, 5, 2].map Literal.digit,
        some 19⟩ := by decide +kernel
    have htext : canonicalJsonString .plain (.arr [.num (.float ⟨false, 1087, 0⟩)]) =
        "[1.8446744073709552e+19]" := by
      decide +kernel
    rw [← htext]
    refine not_sameDocument_of_value (l := .ofNat 18446744073709551617) (f := ⟨false, 1087, 0⟩)
      (by decide +kernel)
      (by decide +kernel) (by decide) (by decide +kernel) ?_
    rw [hvalue]
    norm_num [Literal.value, Literal.fractionValue, Literal.ofNat, Literal.digit]
  · have hvalue : (⟨false, 1100, 4437097088938097⟩ : F64).literal =
        ⟨false, 2, [9, 9, 9, 9, 9, 9, 9, 9, 9, 9, 9, 9, 9, 9, 9, 7].map Literal.digit,
        some 23⟩ := by decide +kernel
    have htext : canonicalJsonString .plain (.arr [.num (.float ⟨false, 1100, 4437097088938097⟩)]) =
        "[2.9999999999999997e+23]" := by decide +kernel
    rw [← htext]
    refine not_sameDocument_of_value (l := ⟨false, 3, [], some 23⟩)
      (f := ⟨false, 1100, 4437097088938097⟩)
      (by decide +kernel) (by decide +kernel) (by decide) (by decide +kernel) ?_
    rw [hvalue]
    norm_num [Literal.value, Literal.fractionValue, Literal.digit]

end Cases

end Lobster.Deepseek
