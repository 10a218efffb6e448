import LobsterProxy.Base.Document
import LobsterProxy.Deepseek.Policy

/-! The canonical text is the text of the sorted document, so that it is read back and tells
apart exactly the values that differ in more than the order of their keys. -/

namespace Lobster

def Json.Value : Type := {v : Json // v.distinct = true}

/-- The same value up to the order of the keys at every level, its scalars as they are held. -/
def Json.SameUpToOrder (v w : Json) : Prop := JsonText.Same Eq v.doc w.doc

namespace Deepseek
open JsonText

section Text
variable (serde : Serde)

/-- The key of a written entry, and its text as characters. -/
def written (e : String × String) : String × List Char := (e.1, e.2.toList)

def printed (e : String × Doc (Scalar Number)) : String × List Char :=
  (e.1, printField serde.writer e)

theorem toList_joined (texts : List String) :
    (",".intercalate texts).toList = [','].intercalate (texts.map String.toList) :=
      String.toList_intercalate

theorem written_sorted {entries : List (String × String)}
    {fields : List (String × Doc (Scalar Number))}
    (h : entries.map written = fields.map (printed serde)) :
    ((entries.insertionSort (fun a b => a.1 ≤ b.1)).map Prod.snd).map String.toList =
      (fields.insertionSort byKey).map (printField serde.writer) := by
  have hentries : (entries.insertionSort byKey).map written =
      (fields.insertionSort byKey).map (printed serde) := by
    rw [map_insertionSort_byKey written (fun _ => rfl), h,
      map_insertionSort_byKey (printed serde) fun _ => rfl]
  have htexts := congrArg (List.map Prod.snd) hentries
  rw [List.map_map, List.map_map] at htexts
  rw [List.map_map]
  exact htexts

mutual

theorem toList_writeCanonical (v : Json) :
    (writeCanonical serde v).toList = print serde.writer v.doc.sort := by
  cases v with
  | arr items =>
    rw [writeCanonical, Json.doc, Doc.sort, print_arr, String.toList_append, String.toList_append,
      toList_joined, toList_writeCanonicalItems]
    rfl
  | obj fields =>
    rw [writeCanonical, Json.doc, Doc.sort, print_obj, String.toList_append, String.toList_append,
      toList_joined, written_sorted serde (toList_writeCanonicalFields fields)]
    rfl
  | _ => rfl

theorem toList_writeCanonicalItems (items : List Json) :
    (writeCanonicalItems serde items).map String.toList =
      (sortItems (Json.docItems items)).map (print serde.writer) := by
  cases items with
  | nil => rfl
  | cons item rest =>
    rw [writeCanonicalItems, Json.docItems, sortItems, List.map_cons, List.map_cons,
      toList_writeCanonical, toList_writeCanonicalItems]

theorem toList_writeCanonicalFields (fields : Fields) :
    (writeCanonicalFields serde fields).map written =
      (sortFields (Json.docFields fields)).map (printed serde) := by
  cases fields with
  | nil => rfl
  | cons e rest =>
    obtain ⟨key, value⟩ := e
    have hvalue := toList_writeCanonical value
    rw [writeCanonicalFields, Json.docFields, sortFields, List.map_cons, List.map_cons,
      toList_writeCanonicalFields]
    refine congrArg (· :: _) (Prod.ext rfl ?_)
    show (serde.toString (.str key) ++ ":" ++ writeCanonical serde value).toList = _
    rw [String.toList_append, String.toList_append, hvalue, List.append_assoc]
    rfl

end

end Text

section Complete
variable {serde : Serde} {reader : Reader (Scalar Number)}

theorem read_canonical (h : Reads reader serde.writer id) (v : Json) :
    read reader (canonicalJsonString serde v).toList = some v.doc.sort := by
  unfold canonicalJsonString
  rw [toList_writeCanonical, read_print h, map_id]

theorem canonicalJsonString_eq_iff (h : Reads reader serde.writer id) (v w : Json.Value) :
    canonicalJsonString serde v.1 = canonicalJsonString serde w.1 ↔ v.1.SameUpToOrder w.1 := by
  have hdistinct : v.1.doc.distinct = true := by
    rw [Json.distinct_doc]
    exact v.2
  unfold Json.SameUpToOrder
  rw [← sort_eq_iff hdistinct]
  constructor
  · intro htext
    have hread := read_canonical h v.1
    rw [htext, read_canonical h w.1] at hread
    exact (Option.some.inj hread).symm
  · intro hsort
    apply String.toList_inj.mp
    unfold canonicalJsonString
    rw [toList_writeCanonical, toList_writeCanonical, hsort]

/-- The canonical text is read as the value up to the order of its keys, it is the canonical text
of what is read, and two values share it exactly when they are the same up to that order. -/
theorem canonicalJsonString_complete (serde : Serde) (reader : Reader (Scalar Number))
    (h : Reads reader serde.writer id) (v w : Json.Value) :
    (∃ u : Json.Value, Json.parse reader (canonicalJsonString serde v.1) = some u.1 ∧
      u.1.SameUpToOrder v.1 ∧
      canonicalJsonString serde u.1 = canonicalJsonString serde v.1) ∧
    (canonicalJsonString serde v.1 = canonicalJsonString serde w.1 ↔ v.1.SameUpToOrder w.1) := by
  refine ⟨?_, canonicalJsonString_eq_iff h v w⟩
  have hdistinct : v.1.doc.sort.distinct = true := by
    rw [distinct_sort, Json.distinct_doc]
    exact v.2
  let u : Json.Value := ⟨Json.ofDoc v.1.doc.sort, Json.distinct_ofDoc hdistinct⟩
  have hsame : u.1.SameUpToOrder v.1 := by
    have hsorted := same_refl v.1.doc.sort
    unfold Json.SameUpToOrder
    rw [Json.doc_ofDoc hdistinct]
    exact hsorted.of_sort
  refine ⟨u, ?_, hsame, (canonicalJsonString_eq_iff h u v).mpr hsame⟩
  unfold Json.parse
  rw [read_canonical h]
  rfl

end Complete

section Cases

/-- The bits of a double between the point and the exponent. -/
def bitsLiteral (f : F64) : Literal :=
  ⟨f.neg, f.exponent.val, [Literal.digit 0], some (f.fraction.val : Int)⟩

def bitsOfLiteral (l : Literal) : F64 :=
  ⟨l.negative, ⟨l.int % 2047, Nat.mod_lt _ (Nat.succ_pos 2046)⟩,
    ⟨(l.exponent.getD 0).toNat % 2 ^ 52, Nat.mod_lt _ (Nat.two_pow_pos 52)⟩⟩

theorem bitsOfLiteral_bitsLiteral (f : F64) : bitsOfLiteral (bitsLiteral f) = f :=
  congrArg₂ (F64.mk f.neg) (Fin.ext (Nat.mod_eq_of_lt f.exponent.isLt))
    (Fin.ext (Nat.mod_eq_of_lt f.fraction.isLt))

def bitsSerde : Serde := .ofTokens (renderedNumber bitsLiteral) (loadedNumber bitsOfLiteral)

def bitsReader : Reader (Scalar Number) :=
  (exactReader unquote).map (Scalar.map (loadedNumber bitsOfLiteral))

theorem reads_bits : Reads bitsReader bitsSerde.writer id := by
  have hinverse : Scalar.map (loadedNumber bitsOfLiteral) ∘ Scalar.map
      (renderedNumber bitsLiteral) = id := by
    funext s
    cases s with
    | num n =>
      exact congrArg Scalar.num (loaded_rendered fun f _ => ⟨rfl, bitsOfLiteral_bitsLiteral f⟩)
    | _ => rfl
  have hreads :=
    (reads_tokens (renderedNumber bitsLiteral)).map (Scalar.map (loadedNumber bitsOfLiteral))
  rw [hinverse] at hreads
  rw [bitsSerde, Serde.writer_ofTokens]
  exact hreads

def unsortedPair : Json.Value := ⟨.obj [("b", .arr [.num (.posInt 1)]), ("a", .null)], by decide⟩

def sortedPair : Json.Value := ⟨.obj [("a", .null), ("b", .arr [.num (.posInt 1)])], by decide⟩

theorem canonicalJsonString_complete_pair :
    (∃ u : Json.Value, Json.parse bitsReader (canonicalJsonString bitsSerde unsortedPair.1) =
      some u.1 ∧
      u.1.SameUpToOrder unsortedPair.1 ∧
      canonicalJsonString bitsSerde u.1 = canonicalJsonString bitsSerde unsortedPair.1) ∧
    (canonicalJsonString bitsSerde unsortedPair.1 = canonicalJsonString bitsSerde sortedPair.1 ↔
      unsortedPair.1.SameUpToOrder sortedPair.1) :=
  canonicalJsonString_complete bitsSerde bitsReader reads_bits unsortedPair sortedPair

end Cases

end Deepseek
end Lobster
