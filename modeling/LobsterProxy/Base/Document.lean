import LobsterProxy.Base.DocOrder
import LobsterProxy.Base.Members
import LobsterProxy.Base.Tokens

/-! A JSON value as a document of scalars, and the value of a document: of a key that is
written twice the last value stays, where the first one stood. -/

namespace Lobster
open JsonText

namespace Json

mutual

def doc : Json → Doc (Scalar Number)
  | .null => .leaf .null
  | .bool b => .leaf (.bool b)
  | .num n => .leaf (.num n)
  | .str s => .leaf (.str s)
  | .arr items => .arr (docItems items)
  | .obj fields => .obj (docFields fields)

def docItems : List Json → List (Doc (Scalar Number))
  | [] => []
  | item :: rest => item.doc :: docItems rest

def docFields : List (String × Json) → List (String × Doc (Scalar Number))
  | [] => []
  | (key, value) :: rest => (key, value.doc) :: docFields rest

end

def ofScalar : Scalar Number → Json
  | .null => .null
  | .bool b => .bool b
  | .num n => .num n
  | .str s => .str s

mutual

def ofDoc : Doc (Scalar Number) → Json
  | .leaf s => ofScalar s
  | .arr items => .arr (ofItems items)
  | .obj fields => .obj (ofFields fields [])

def ofItems : List (Doc (Scalar Number)) → List Json
  | [] => []
  | t :: items => ofDoc t :: ofItems items

def ofFields : List (String × Doc (Scalar Number)) → Fields → Fields
  | [], loaded => loaded
  | (key, t) :: fields, loaded => ofFields fields (loaded.insert key (ofDoc t))

end

theorem doc_ofScalar (s : Scalar Number) : (ofScalar s).doc = .leaf s := by
  cases s <;> rfl

theorem keys_docFields (fields : Fields) :
    (docFields fields).map Prod.fst = fields.map Prod.fst := by
  induction fields with
  | nil => rfl
  | cons e fields ih => rw [docFields, List.map_cons, ih, List.map_cons]

theorem docFields_append (fields later : Fields) :
    docFields (fields ++ later) = docFields fields ++ docFields later := by
  induction fields with
  | nil => rfl
  | cons e fields ih => rw [List.cons_append, docFields, ih, docFields, List.cons_append]

mutual

theorem distinct_doc (v : Json) : v.doc.distinct = v.distinct := by
  cases v with
  | arr items => exact distinctItems_doc items
  | obj fields =>
    rw [doc, Doc.distinct, distinct, distinctFields_doc, keys_docFields]
    rfl
  | _ => rfl

theorem distinctItems_doc (items : List Json) :
    JsonText.distinctItems (docItems items) = distinctItems items := by
  cases items with
  | nil => rfl
  | cons item rest =>
    rw [docItems, JsonText.distinctItems, distinctItems, distinct_doc, distinctItems_doc]

theorem distinctFields_doc (fields : Fields) :
    JsonText.distinctFields (docFields fields) = distinctFields fields := by
  cases fields with
  | nil => rfl
  | cons e rest =>
    rw [docFields, JsonText.distinctFields, distinctFields, distinct_doc, distinctFields_doc]

end

theorem insert_of_not_mem {fields : Fields} {key : String} (h : key ∉ fields.map Prod.fst)
    (value : Json) :
    fields.insert key value = fields ++ [(key, value)] := by
  induction fields with
  | nil => rfl
  | cons e rest ih =>
    obtain ⟨hkey, hrest⟩ := not_or.mp (List.mem_cons.not.mp h)
    rw [Fields.insert, if_neg (Ne.symm hkey), ih hrest, List.cons_append]

mutual

theorem doc_ofDoc {t : Doc (Scalar Number)} (h : t.distinct = true) : (ofDoc t).doc = t := by
  cases t with
  | leaf s => exact doc_ofScalar s
  | arr items => exact congrArg Doc.arr (docItems_ofItems h)
  | obj fields =>
    rw [Doc.distinct, Bool.and_eq_true, decide_eq_true_iff] at h
    exact congrArg Doc.obj (docFields_ofFields h.2 [] h.1)

theorem docItems_ofItems {items : List (Doc (Scalar Number))}
    (h : JsonText.distinctItems items = true) :
    docItems (ofItems items) = items := by
  cases items with
  | nil => rfl
  | cons t items =>
    rw [JsonText.distinctItems, Bool.and_eq_true] at h
    rw [ofItems, docItems, doc_ofDoc h.1, docItems_ofItems h.2]

theorem docFields_ofFields {fields : List (String × Doc (Scalar Number))}
    (h : JsonText.distinctFields fields = true) (loaded : Fields)
    (hkeys : (loaded.map Prod.fst ++ fields.map Prod.fst).Nodup) :
    docFields (ofFields fields loaded) = docFields loaded ++ fields := by
  cases fields with
  | nil => exact (List.append_nil _).symm
  | cons e fields =>
    obtain ⟨key, t⟩ := e
    rw [JsonText.distinctFields, Bool.and_eq_true] at h
    have hnew : key ∉ loaded.map Prod.fst := fun hmem =>
      (List.nodup_append.mp hkeys).2.2 key hmem key List.mem_cons_self rfl
    rw [ofFields, insert_of_not_mem hnew, docFields_ofFields h.2, docFields_append, docFields,
      docFields, doc_ofDoc h.1, List.append_assoc]
    · rfl
    · rw [List.map_append, List.append_assoc]
      exact hkeys

end

theorem distinct_ofDoc {t : Doc (Scalar Number)} (h : t.distinct = true) :
    (ofDoc t).distinct = true := by
  rw [← distinct_doc, doc_ofDoc h]
  exact h

theorem sizeFields_insert_le (loaded : Fields) (key : String) (value : Json) :
    sizeFields (docFields (loaded.insert key value)) ≤ sizeFields (docFields loaded) +
      size value.doc := by
  induction loaded with
  | nil =>
    show size value.doc + 1 ≤ 1 + size value.doc
    omega
  | cons e loaded ih =>
    rw [Fields.insert]
    split_ifs with hkey
    · rw [docFields, docFields, sizeFields, sizeFields]
      omega
    · rw [docFields, docFields, sizeFields, sizeFields]
      omega

theorem sizeFields_insert_lt {loaded : Fields} {key : String} (h : key ∈ loaded.map Prod.fst)
    (value : Json) :
    sizeFields (docFields (loaded.insert key value)) < sizeFields (docFields loaded) +
      size value.doc := by
  induction loaded with
  | nil => cases h
  | cons e loaded ih =>
    rw [Fields.insert]
    split_ifs with hkey
    · have hpos := size_pos e.2.doc
      rw [docFields, docFields, sizeFields, sizeFields]
      omega
    · have hlater := ih ((List.mem_cons.mp h).resolve_left (Ne.symm hkey))
      rw [docFields, docFields, sizeFields, sizeFields]
      omega

mutual

/-- The value of a document is no larger, and as large only if no key is written twice. -/
theorem size_doc_ofDoc (t : Doc (Scalar Number)) :
    size (ofDoc t).doc ≤ size t ∧ (size t ≤ size (ofDoc t).doc → t.distinct = true) := by
  cases t with
  | leaf s =>
    rw [ofDoc, doc_ofScalar]
    exact ⟨le_refl _, fun _ => rfl⟩
  | arr items =>
    obtain ⟨hle, hdistinct⟩ := size_docItems_ofItems items
    rw [ofDoc, doc, size, size]
    exact ⟨by omega, fun h => hdistinct (by omega)⟩
  | obj fields =>
    obtain ⟨hle, hdistinct⟩ := size_docFields_ofFields fields []
    rw [docFields, sizeFields] at hle hdistinct
    rw [ofDoc, doc, size, size, Doc.distinct]
    refine ⟨by omega, fun h => ?_⟩
    obtain ⟨hfields, hkeys, -⟩ := hdistinct (by omega)
    rw [hfields, decide_eq_true hkeys]
    rfl

theorem size_docItems_ofItems (items : List (Doc (Scalar Number))) :
    sizeItems (docItems (ofItems items)) ≤ sizeItems items ∧
      (sizeItems items ≤ sizeItems (docItems (ofItems items)) →
        JsonText.distinctItems items = true) := by
  cases items with
  | nil => exact ⟨le_refl _, fun _ => rfl⟩
  | cons t items =>
    obtain ⟨hfirst, hdistinct⟩ := size_doc_ofDoc t
    obtain ⟨hothers, hdistinctOthers⟩ := size_docItems_ofItems items
    rw [ofItems, docItems, sizeItems, sizeItems, JsonText.distinctItems]
    refine ⟨by omega, fun h => ?_⟩
    rw [hdistinct (by omega), hdistinctOthers (by omega)]
    rfl

theorem size_docFields_ofFields (fields : List (String × Doc (Scalar Number))) (loaded : Fields) :
    sizeFields (docFields (ofFields fields loaded)) + 1 ≤ sizeFields (docFields loaded) +
      sizeFields fields ∧
      (sizeFields (docFields loaded) + sizeFields fields ≤
        sizeFields (docFields (ofFields fields loaded)) + 1 →
        JsonText.distinctFields fields = true ∧ (fields.map Prod.fst).Nodup ∧
          ∀ key ∈ fields.map Prod.fst, key ∉ loaded.map Prod.fst) := by
  cases fields with
  | nil => exact ⟨le_refl _, fun _ => ⟨rfl, List.nodup_nil, nofun⟩⟩
  | cons e fields =>
    obtain ⟨key, t⟩ := e
    obtain ⟨hfirst, hdistinct⟩ := size_doc_ofDoc t
    have hinsert := sizeFields_insert_le loaded key (ofDoc t)
    obtain ⟨hothers, hdistinctOthers⟩ :=
      size_docFields_ofFields fields (loaded.insert key (ofDoc t))
    rw [ofFields, sizeFields, JsonText.distinctFields]
    refine ⟨by omega, fun h => ?_⟩
    obtain ⟨hfields, hkeys, hnew⟩ := hdistinctOthers (by omega)
    have hkey : key ∉ loaded.map Prod.fst := by
      intro hmem
      have hshrinks := sizeFields_insert_lt hmem (ofDoc t)
      omega
    rw [insert_of_not_mem hkey, List.map_append] at hnew
    refine ⟨?_, List.nodup_cons.mpr ⟨fun hmem => ?_, hkeys⟩, ?_⟩
    · rw [hdistinct (by omega), hfields]
      rfl
    · exact hnew key hmem (List.mem_append_right _ List.mem_cons_self)
    · intro other hother
      rcases List.mem_cons.mp hother with rfl | hother
      · exact hkey
      · exact fun hmem => hnew other hother (List.mem_append_left _ hmem)

end

/-- A document that is loaded, sorted and written out again is the same one exactly when no key is
written twice in an object and every leaf comes back related. -/
theorem same_reloaded_iff {σ τ : Type} {R : σ → τ → Prop} {f : σ → Scalar Number}
    {g : Scalar Number → τ} (t : Doc σ) : Same R t ((ofDoc (t.map f)).doc.sort.map g) ↔
      t.distinct = true ∧ ∀ s ∈ t.leaves, R s (g (f s)) := by
  have hwhole : t.distinct = true → (ofDoc (t.map f)).doc.sort.map g = (t.map (g ∘ f)).sort := by
    intro hdistinct
    have hmapped : (t.map f).distinct = true := by
      rw [distinct_map]
      exact hdistinct
    rw [doc_ofDoc hmapped, map_sort, map_map]
  constructor
  · intro h
    have hsize := h.size_eq
    rw [size_map, size_sort, ← size_map f t] at hsize
    have hdistinct := (size_doc_ofDoc (t.map f)).2 hsize.le
    rw [distinct_map] at hdistinct
    rw [hwhole hdistinct] at h
    exact ⟨hdistinct, (same_sort_map_iff hdistinct).mp h⟩
  · rintro ⟨hdistinct, hleaves⟩
    rw [hwhole hdistinct]
    exact (same_sort_map_iff hdistinct).mpr hleaves

def parse (reader : Reader (Scalar Number)) (text : String) : Option Json :=
  (read reader text.toList).map ofDoc

end Json

section Numbers
variable (nearest : Literal → F64) (shortest : F64 → Literal)

/-- How a literal is held without arbitrary precision: an integer of 64 bits as it is, any other
number as a double. -/
def loadedNumber (l : Literal) : Number :=
  if l.inRange then
    if l.negative then .negInt ⟨(l.int - 1) % 2 ^ 63, Nat.mod_lt _ (Nat.two_pow_pos 63)⟩
      else .posInt (UInt64.ofNat l.int)
  else .float (nearest l)

def renderedNumber : Number → Literal
  | .posInt n => .ofNat n.toNat
  | .negInt k => .ofNeg (k.val + 1)
  | .float f => shortest f

variable {nearest shortest}

theorem inRange_iff (l : Literal) : l.inRange = true ↔
    (∃ n : UInt64, l = .ofNat n.toNat) ∨ ∃ k : Fin (2 ^ 63), l = .ofNeg (k.val + 1) := by
  obtain ⟨negative, int, fraction, exponent⟩ := l
  constructor
  · intro h
    simp only [Literal.inRange, Bool.and_eq_true, decide_eq_true_eq] at h
    obtain ⟨⟨rfl, rfl⟩, h⟩ := h
    cases negative with
    | true =>
      obtain ⟨hpos, hle⟩ : 0 < int ∧ int ≤ 2 ^ 63 := by simpa using h
      exact .inr ⟨⟨int - 1, by omega⟩, by simp only [Literal.ofNeg, Nat.sub_add_cancel hpos]⟩
    | false =>
      have hlt : int < 2 ^ 64 := by simpa using h
      exact .inl
        ⟨UInt64.ofNat int, by rw [UInt64.toNat_ofNat', Nat.mod_eq_of_lt hlt, Literal.ofNat]⟩
  · rintro (⟨n, hn⟩ | ⟨k, hk⟩)
    · have hlt := n.toNat_lt
      rw [hn]
      exact decide_eq_true hlt
    · have hlt := k.isLt
      rw [hk]
      show (decide (0 < k.val + 1) && decide (k.val + 1 ≤ 2 ^ 63)) = true
      rw [decide_eq_true (Nat.succ_pos _), decide_eq_true (Nat.succ_le_of_lt hlt)]
      rfl

theorem loaded_of_inRange {l : Literal} (h : l.inRange = true) : loadedNumber nearest l =
    if l.negative then .negInt ⟨(l.int - 1) % 2 ^ 63, Nat.mod_lt _ (Nat.two_pow_pos 63)⟩
      else .posInt (UInt64.ofNat l.int) := if_pos h

theorem loaded_of_not_inRange {l : Literal} (h : l.inRange = false) :
    loadedNumber nearest l = .float (nearest l) :=
  if_neg (by simp [h])

theorem rendered_loaded {l : Literal} (h : l.inRange = true) :
    renderedNumber shortest (loadedNumber nearest l) = l := by
  rw [loaded_of_inRange h]
  rcases (inRange_iff l).mp h with ⟨n, rfl⟩ | ⟨k, rfl⟩
  · exact congrArg Literal.ofNat (congrArg UInt64.toNat UInt64.ofNat_toNat)
  · exact congrArg (fun n => Literal.ofNeg (n + 1)) (Nat.mod_eq_of_lt k.isLt)

theorem inRange_rendered {n : Number} (h : ∀ f, n ≠ .float f) :
    (renderedNumber shortest n).inRange = true := by
  cases n with
  | posInt n => exact (inRange_iff _).mpr (.inl ⟨n, rfl⟩)
  | negInt k => exact (inRange_iff _).mpr (.inr ⟨k, rfl⟩)
  | float f => exact absurd rfl (h f)

/-- A number is read as it was written, where the doubles are. -/
theorem loaded_rendered {n : Number}
    (h : ∀ f, n = .float f → (shortest f).inRange = false ∧ nearest (shortest f) = f) :
    loadedNumber nearest (renderedNumber shortest n) = n := by
  cases n with
  | posInt n =>
    rw [loaded_of_inRange (inRange_rendered (n := .posInt n) fun _ hn => Number.noConfusion hn)]
    exact congrArg Number.posInt UInt64.ofNat_toNat
  | negInt k =>
    rw [loaded_of_inRange (inRange_rendered (n := .negInt k) fun _ hn => Number.noConfusion hn)]
    exact congrArg Number.negInt (Fin.ext (Nat.mod_eq_of_lt k.isLt))
  | float f =>
    obtain ⟨hout, hread⟩ := h f rfl
    rw [renderedNumber, loaded_of_not_inRange hout, hread]

end Numbers

def Serde.writer (serde : Serde) : Writer (Scalar Number) where
  leaf s := (serde.toString (Json.ofScalar s)).toList
  key key := (serde.toString (.str key)).toList

def Serde.ofTokens (rendered : Number → Literal) (loaded : Literal → Number) : Serde where
  toString v := String.ofList (print (tokenWriter rendered) v.doc)
  fromSlice bytes := (String.fromUTF8? ⟨bytes.toArray⟩).bind fun text =>
    (read (exactReader unquote) text.toList).map fun t => Json.ofDoc (t.map (Scalar.map loaded))
  fromStr text :=
    (read (exactReader unquote) text.toList).map fun t => Json.ofDoc (t.map (Scalar.map loaded))

theorem Serde.writer_ofTokens (rendered : Number → Literal) (loaded : Literal → Number) :
    (Serde.ofTokens rendered loaded).writer = tokenWriter rendered := by
  have hleaf : ∀ s, (Serde.ofTokens rendered loaded).writer.leaf s =
      (tokenWriter rendered).leaf s := by
    intro s
    show (String.ofList (print (tokenWriter rendered) (Json.ofScalar s).doc)).toList = _
    rw [String.toList_ofList, Json.doc_ofScalar, print]
  have hkey : ∀ key, (Serde.ofTokens rendered loaded).writer.key key =
      (tokenWriter rendered).key key := by
    intro key
    calc (Serde.ofTokens rendered loaded).writer.key key
        = (Serde.ofTokens rendered loaded).writer.leaf (.str key) := rfl
      _ = (tokenWriter rendered).leaf (.str key) := hleaf (.str key)
      _ = (tokenWriter rendered).key key := rfl
  cases hwriter : (Serde.ofTokens rendered loaded).writer with
  | mk leaf key =>
    rw [hwriter] at hleaf hkey
    obtain rfl : leaf = (tokenWriter rendered).leaf := funext hleaf
    obtain rfl : key = (tokenWriter rendered).key := funext hkey
    rfl

end Lobster
