import LobsterProxy.Base.Document
import LobsterProxy.Base.NumberText

/-! The serializer as it is built: without `arbitrary_precision`, so that numbers are held as
integers of 64 bits or as doubles, and without `float_roundtrip`, so that not every double is read
back from the text that it is written as. -/

namespace Lobster
open JsonText

namespace JsonText

section Mapping
variable {σ τ : Type} {f g : σ → τ}

mutual

theorem leaves_map (f : σ → τ) (t : Doc σ) : (t.map f).leaves = t.leaves.map f := by
  cases t with
  | leaf s => rfl
  | arr items => exact leavesItems_map f items
  | obj fields => exact leavesFields_map f fields

theorem leavesItems_map (f : σ → τ) (items : List (Doc σ)) :
    leavesItems (mapItems f items) = (leavesItems items).map f := by
  cases items with
  | nil => rfl
  | cons t items =>
    rw [mapItems, leavesItems, leavesItems, List.map_append, leaves_map, leavesItems_map]

theorem leavesFields_map (f : σ → τ) (fields : List (String × Doc σ)) :
    leavesFields (mapFields f fields) = (leavesFields fields).map f := by
  cases fields with
  | nil => rfl
  | cons e fields =>
    rw [mapFields, leavesFields, leavesFields, List.map_append, leaves_map, leavesFields_map]

end

mutual

theorem map_congr_leaves {t : Doc σ} (h : ∀ s ∈ t.leaves, f s = g s) : t.map f = t.map g := by
  cases t with
  | leaf s => exact congrArg Doc.leaf (h s List.mem_cons_self)
  | arr items => exact congrArg Doc.arr (mapItems_congr h)
  | obj fields => exact congrArg Doc.obj (mapFields_congr h)

theorem mapItems_congr {items : List (Doc σ)} (h : ∀ s ∈ leavesItems items, f s = g s) :
    mapItems f items = mapItems g items := by
  cases items with
  | nil => rfl
  | cons t items =>
    obtain ⟨hfirst, hrest⟩ := List.forall_mem_append.mp h
    rw [mapItems, mapItems, map_congr_leaves hfirst, mapItems_congr hrest]

theorem mapFields_congr {fields : List (String × Doc σ)}
    (h : ∀ s ∈ leavesFields fields, f s = g s) :
    mapFields f fields = mapFields g fields := by
  cases fields with
  | nil => rfl
  | cons e fields =>
    obtain ⟨hfirst, hrest⟩ := List.forall_mem_append.mp h
    rw [mapFields, mapFields, map_congr_leaves hfirst, mapFields_congr hrest]

end

theorem map_eq_self_iff {t : Doc σ} {f : σ → σ} : t.map f = t ↔ ∀ s ∈ t.leaves, f s = s := by
  constructor
  · intro h
    have hleaves := congrArg Doc.leaves h
    rw [leaves_map] at hleaves
    exact List.map_inj_left.mp (hleaves.trans (List.map_id _).symm)
  · intro h
    exact (map_congr_leaves h).trans (map_id t)

end Mapping

end JsonText

namespace Json

mutual

theorem distinct_loaded (t : Doc (Scalar Number)) : (ofDoc t).distinct = true := by
  cases t with
  | leaf s => cases s <;> rfl
  | arr items => exact distinctItems_loaded items
  | obj fields =>
    obtain ⟨hkeys, hfields⟩ := @distinctFields_loaded fields [] List.nodup_nil rfl
    rw [ofDoc, distinct, hfields, Bool.and_true]
    exact decide_eq_true hkeys

theorem distinctItems_loaded (items : List (Doc (Scalar Number))) :
    distinctItems (ofItems items) = true := by
  cases items with
  | nil => rfl
  | cons t items =>
    rw [ofItems, distinctItems, distinct_loaded, distinctItems_loaded, Bool.and_self]

theorem distinctFields_loaded (fields : List (String × Doc (Scalar Number))) {loaded : Fields}
    (hkeys : loaded.Distinct) (hloaded : distinctFields loaded = true) :
    (ofFields fields loaded).Distinct ∧ distinctFields (ofFields fields loaded) = true := by
  cases fields with
  | nil => exact ⟨hkeys, hloaded⟩
  | cons e fields =>
    refine distinctFields_loaded fields (hkeys.insert e.1 (ofDoc e.2)) ?_
    have hvalue := distinct_loaded e.2
    clear hkeys
    induction loaded with
    | nil => rw [Fields.insert, distinctFields, hvalue, hloaded, Bool.and_self]
    | cons entry loaded ih =>
      rw [distinctFields, Bool.and_eq_true] at hloaded
      rw [Fields.insert]
      split_ifs
      · rw [distinctFields, hvalue, hloaded.2, Bool.and_self]
      · rw [distinctFields, hloaded.1, ih hloaded.2, Bool.and_self]

end

mutual

theorem ofDoc_doc {v : Json} (h : v.distinct = true) : ofDoc v.doc = v := by
  cases v with
  | arr items => exact congrArg Json.arr (ofItems_docItems h)
  | obj fields =>
    rw [distinct, Bool.and_eq_true, decide_eq_true_iff] at h
    exact congrArg Json.obj (ofFields_docFields h.2 [] h.1)
  | _ => rfl

theorem ofItems_docItems {items : List Json} (h : distinctItems items = true) :
    ofItems (docItems items) = items := by
  cases items with
  | nil => rfl
  | cons item rest =>
    rw [distinctItems, Bool.and_eq_true] at h
    rw [docItems, ofItems, ofDoc_doc h.1, ofItems_docItems h.2]

theorem ofFields_docFields {fields : Fields} (h : distinctFields fields = true) (loaded : Fields)
    (hkeys : (loaded.map Prod.fst ++ fields.map Prod.fst).Nodup) :
    ofFields (docFields fields) loaded = loaded ++ fields := by
  cases fields with
  | nil => exact (List.append_nil _).symm
  | cons e fields =>
    rw [distinctFields, Bool.and_eq_true] at h
    have hnew : e.1 ∉ loaded.map Prod.fst := fun hmem =>
      (List.nodup_append.mp hkeys).2.2 e.1 hmem e.1 List.mem_cons_self rfl
    rw [docFields, ofFields, ofDoc_doc h.1, insert_of_not_mem hnew, ofFields_docFields h.2,
      List.append_assoc]
    · rfl
    · rw [List.map_append, List.append_assoc]
      exact hkeys

end

end Json

namespace JsonText.Literal

def double (l : Literal) : F64 := l.readDouble.getD F64.zero

def readable (l : Literal) : Bool := l.inRange || l.readDouble.isSome

/-- The reader arrives at the nearest double in spite of its roundings. -/
def ReadsNearest (l : Literal) : Prop := l.readDouble.map Double.finite = some l.nearest

/-- The value is the one of the shortest decimal of the nearest double. -/
def IsShortest (l : Literal) : Prop := ∃ f, l.nearest = .finite f ∧ f.shortestValue = l.value

theorem neg_readDouble {l : Literal} {f : F64} (h : l.readDouble = some f) :
    l.negative = f.neg := by
  unfold readDouble at h
  split at h
  · cases h
    rfl
  · cases h

/-- What is written of the double that a literal is read as has its value exactly when the literal
is a shortest decimal that is read as the nearest double. -/
theorem shortestValue_eq_iff {l : Literal} {f : F64} (h : l.readDouble = some f) :
    f.shortestValue = l.value ↔ l.ReadsNearest ∧ l.IsShortest := by
  unfold ReadsNearest
  rw [h, Option.map_some, Option.some_inj]
  constructor
  · intro hvalue
    have hnearest := F64.nearest_of_shortest (neg_readDouble h) hvalue.symm
    exact ⟨hnearest.symm, f, hnearest, hvalue⟩
  · rintro ⟨hread, g, hnearest, hvalue⟩
    obtain rfl := Double.finite.inj (hread.trans hnearest)
    exact hvalue

end JsonText.Literal

/-- The serializer as it is built. The string tokens and the layout of a double's digits are left
open; `tokens` reads a string, and `rendered` is the literal of a double. -/
structure Serde.Plain (tokens : List Char → Option (String × List Char))
    (rendered : F64 → Literal) (serde : Serde) :
    Prop where
  /-- What is parsed is a document, whose numbers can be read, loaded key by key. -/
  parses :
    ∀ text v, serde.fromStr text = some v → ∃ t, read (exactReader tokens) text.toList = some t ∧
    (∀ l, .num l ∈ t.leaves → l.readable = true) ∧
    v = Json.ofDoc (t.map (Scalar.map (loadedNumber Literal.double)))
  /-- A value is written token by token. -/
  prints : ∀ v, (serde.toString v).toList = print serde.writer v.doc
  /-- A token is read as what was written. -/
  writes : Reads (exactReader tokens) serde.writer (Scalar.map (renderedNumber rendered))
  /-- A value that was parsed is no deeper than what is parsed. -/
  accepts :
    ∀ text v, serde.fromStr text = some v →
    ∀ t, read (exactReader tokens) (serde.toString v).toList = some t →
    (∀ l, .num l ∈ t.leaves → l.readable = true) → (serde.fromStr (serde.toString v)).isSome = true
  /-- A double is written as its shortest decimal, with a point or an exponent. -/
  shortest : ∀ f, (rendered f).value = f.shortestValue
  float : ∀ f, (rendered f).inRange = false

section Rereading
variable {tokens : List Char → Option (String × List Char)} {rendered : F64 → Literal}
    {serde : Serde}

/-- Each double of the value is read back from the literal that it is written as. -/
def Json.Rereads (rendered : F64 → Literal) (v : Json) : Prop :=
  ∀ f, .num (.float f) ∈ v.doc.leaves → (rendered f).readDouble = some f

def reread (rendered : F64 → Literal) : Scalar Number → Scalar Number :=
  Scalar.map (loadedNumber Literal.double) ∘ Scalar.map (renderedNumber rendered)

theorem reread_eq_self_iff (hfloat : ∀ f, (rendered f).inRange = false) (s : Scalar Number) :
    reread rendered s = s ↔ ∀ f, s = .num (.float f) → (rendered f).double = f := by
  have hread (f : F64) : reread rendered (.num (.float f)) = .num (.float (rendered f).double) :=
    congrArg Scalar.num (loaded_of_not_inRange (hfloat f))
  constructor
  · rintro hsame f rfl
    rw [hread] at hsame
    exact Number.float.inj (Scalar.num.inj hsame)
  · intro h
    cases s with
    | num n =>
      exact congrArg Scalar.num
        (loaded_rendered fun f hn => ⟨hfloat f, h f (congrArg Scalar.num hn)⟩)
    | _ => rfl

theorem readable_iff {l : Literal} (h : l.inRange = false) :
    l.readable = true ↔ l.readDouble.isSome = true := by
  unfold Literal.readable
  rw [h, Bool.false_or]

namespace Serde.Plain
variable (h : serde.Plain tokens rendered) {text : String} {v w : Json}
include h

theorem read_toString (v : Json) : read (exactReader tokens) (serde.toString v).toList =
    some (v.doc.map (Scalar.map (renderedNumber rendered))) := by
  rw [h.prints]
  exact read_print h.writes v.doc

/-- What the text of a value is parsed as, if it is. -/
theorem parsed_toString (hparsed : serde.fromStr (serde.toString v) = some w) :
    w = Json.ofDoc (v.doc.map (reread rendered)) ∧
      ∀ n, .num n ∈ v.doc.leaves → (renderedNumber rendered n).readable = true := by
  obtain ⟨t, ht, hreadable, hw⟩ := h.parses _ w hparsed
  rw [h.read_toString v] at ht
  obtain rfl := Option.some.inj ht
  rw [map_map] at hw
  refine ⟨hw, fun n hn => hreadable _ ?_⟩
  rw [leaves_map]
  exact List.mem_map_of_mem hn

/-- A value that was parsed is read back from its own text exactly when its doubles are. -/
theorem reads_back_iff (hparsed : serde.fromStr text = some v) :
    serde.fromStr (serde.toString v) = some v ↔ v.Rereads rendered := by
  obtain ⟨t, -, -, hv⟩ := h.parses text v hparsed
  have hdistinct : v.distinct = true := hv ▸ Json.distinct_loaded _
  constructor
  · intro hback f hf
    obtain ⟨hvalue, hreadable⟩ := h.parsed_toString hback
    have hmapped : (v.doc.map (reread rendered)).distinct = true := by
      rw [distinct_map, Json.distinct_doc, hdistinct]
    have hdoc : v.doc.map (reread rendered) = v.doc := by
      rw [← Json.doc_ofDoc hmapped, ← hvalue]
    have hdouble := (reread_eq_self_iff h.float _).mp (map_eq_self_iff.mp hdoc _ hf) f rfl
    obtain ⟨g, hg⟩ := Option.isSome_iff_exists.mp ((readable_iff (h.float f)).mp (hreadable _ hf))
    unfold Literal.double at hdouble
    rw [hg, Option.getD_some] at hdouble
    rw [hg, hdouble]
  · intro hreads
    have hdouble (f : F64) (hf : .num (.float f) ∈ v.doc.leaves) : (rendered f).double = f := by
      unfold Literal.double
      rw [hreads f hf, Option.getD_some]
    have hreadable : ∀ l, .num l ∈ (v.doc.map (Scalar.map (renderedNumber rendered))).leaves →
        l.readable = true := by
      intro l hl
      rw [leaves_map] at hl
      obtain ⟨s, hs, heq⟩ := List.mem_map.mp hl
      cases s with
      | num n =>
        obtain rfl := Scalar.num.inj heq
        by_cases hn : ∃ f, n = .float f
        · obtain ⟨f, rfl⟩ := hn
          refine (readable_iff (h.float f)).mpr ?_
          rw [hreads f hs]
          rfl
        · unfold Literal.readable
          rw [inRange_rendered fun f hf => hn ⟨f, hf⟩, Bool.true_or]
      | _ => cases heq
    obtain ⟨w, hw⟩ :=
      Option.isSome_iff_exists.mp (h.accepts text v hparsed _ (h.read_toString v) hreadable)
    rw [hw, (h.parsed_toString hw).1, map_eq_self_iff.mpr, Json.ofDoc_doc hdistinct]
    exact fun s hs => (reread_eq_self_iff h.float s).mpr fun f hf => hdouble f (hf ▸ hs)

end Serde.Plain

end Rereading

section Plain

def readableLeaves (t : Doc (Scalar Literal)) : Bool :=
  t.leaves.all fun
    | .num l => l.readable
    | _ => true

theorem readableLeaves_iff (t : Doc (Scalar Literal)) :
    readableLeaves t = true ↔ ∀ l, .num l ∈ t.leaves → l.readable = true := by
  unfold readableLeaves
  rw [List.all_eq_true]
  constructor
  · exact fun h l hl => h (.num l) hl
  · intro h s hs
    cases s with
    | num l => exact h l hs
    | _ => rfl

def Json.ofText (text : String) : Option Json :=
  ((read (exactReader unquote) text.toList).filter readableLeaves).map fun t =>
    Json.ofDoc (t.map (Scalar.map (loadedNumber Literal.double)))

/-- The serializer with string tokens that escape what they must. -/
def Serde.plain : Serde where
  toString v := String.ofList (print (tokenWriter (renderedNumber F64.literal)) v.doc)
  fromSlice bytes := (String.fromUTF8? ⟨bytes.toArray⟩).bind Json.ofText
  fromStr := Json.ofText

theorem Serde.writer_plain : Serde.plain.writer = tokenWriter (renderedNumber F64.literal) :=
  Serde.writer_ofTokens (renderedNumber F64.literal) (loadedNumber Literal.double)

theorem Serde.plain_plain : Serde.Plain unquote F64.literal .plain where
  parses text v h := by
    obtain ⟨t, ht, rfl⟩ := Option.map_eq_some_iff.mp h
    obtain ⟨hread, hreadable⟩ := Option.filter_eq_some_iff.mp ht
    exact ⟨t, hread, (readableLeaves_iff t).mp hreadable, rfl⟩
  prints v := by
    rw [Serde.writer_plain]
    exact String.toList_ofList
  writes := by
    rw [Serde.writer_plain]
    exact reads_tokens _
  accepts text v _ t ht hreadable := by
    have hfilter := Option.filter_eq_some_iff.mpr ⟨ht, (readableLeaves_iff t).mpr hreadable⟩
    show (Json.ofText _).isSome = true
    unfold Json.ofText
    rw [hfilter]
    rfl
  shortest := F64.value_literal
  float := F64.inRange_literal

end Plain

end Lobster
