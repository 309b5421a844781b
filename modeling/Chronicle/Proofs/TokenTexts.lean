import Chronicle.Proofs.JsonTexts
import Chronicle.Proofs.PlainForms
import Chronicle.Query.Request
import Chronicle.Query.Response

/-!
# Tokens and requests in JSON text

A continuation token travels as the JSON text of the tagged forms of its values,
and so do the bounds of a request. Integers of every type fit a numeral, bytes
are a list of numbers and texts may hold any character, so both come back as
they were. A float comes back from its digits only, and an infinite one or one
that is no number has none: it is written as null, which no type of number reads.
-/

namespace Chronicle

/-- Steps that lead back from each element lead back from all of them. -/
theorem mapM_eq_some_self {α : Type} {step : α → Option α} {l : List α}
    (h : ∀ a ∈ l, step a = some a) : l.mapM step = some l := by
  induction l with
  | nil => rfl
  | cons a l ih =>
    obtain ⟨ha, hl⟩ := List.forall_mem_cons.mp h
    rw [List.mapM_cons, ha, ih hl]
    rfl

/-- Steps fail together if one of them fails. -/
theorem mapM_eq_none {α β : Type} {step : α → Option β} {l : List α} {a : α} (ha : a ∈ l)
    (h : step a = none) : l.mapM step = none := by
  induction l with
  | nil => cases ha
  | cons b l ih =>
    rw [List.mapM_cons]
    cases ha with
    | head =>
      rw [h]
      rfl
    | tail _ ha =>
      rw [ih ha]
      cases step b <;> rfl

namespace Json

open Document

/-- What is read of the documents of elements is read of them one by one. -/
theorem bind_mapM_elementDocuments? {α : Type} (read : Document → Option α) (elements : List Json) :
    ((elementDocuments? elements).bind fun ds => ds.mapM read) =
      elements.mapM fun j => (document? j).bind read := by
  induction elements with
  | nil => rfl
  | cons j rest ih =>
    rw [List.mapM_cons, ← ih, elementDocuments?]
    cases document? j with
    | none => rfl
    | some d =>
      cases elementDocuments? rest with
      | none => cases hd : read d <;> simp [hd]
      | some ds => simp [List.mapM_cons]

/-- What is read of an array is read of its elements one by one. -/
theorem bind_list?_array {α : Type} (read : Document → Option α) (elements : List Json) :
    (document? (.array elements)).bind (list? read) =
      elements.mapM fun j => (document? j).bind read := by
  rw [← bind_mapM_elementDocuments?, document?]
  cases elementDocuments? elements <;> rfl

/-- The numeral of an integer of a range is read. -/
theorem integer?_ofInt {low high n : Int} (hlow : low ≤ n) (hhigh : n ≤ high)
    (hmin : Int64.minValue.toInt ≤ n) (hmax : n < UInt64.size) :
    integer? low high (.number (.ofInt n)) = some n := by
  rw [integer?, Numeral.value?_ofInt hmin hmax]
  exact if_pos ⟨hlow, hhigh⟩

/-- The numeral of a natural number below a bound is read. -/
theorem natural?_ofInt {bound n : Nat} (h : n < bound) (hbound : bound ≤ UInt64.size) :
    natural? bound (.number (.ofInt n)) = some n := by
  have hmin : Int64.minValue.toInt ≤ 0 := by decide
  rw [natural?, integer?_ofInt (by omega) (by omega) (by omega) (by omega), Option.map_some,
    Int.toNat_natCast]

end Json

namespace Value

open Json

theorem int32?_ofInt (n : Int32) : int32? (.number (.ofInt n.toInt)) = some n := by
  have hlow := n.minValue_le_toInt
  have hhigh : n.toInt ≤ Int32.maxValue.toInt := Int32.toInt_le n
  have hmin : Int32.minValue.toInt = -2147483648 := rfl
  have hmin64 : Int64.minValue.toInt = -9223372036854775808 := rfl
  have hmax : Int32.maxValue.toInt = 2147483647 := rfl
  have hsize : UInt64.size = 18446744073709551616 := rfl
  rw [int32?, integer?_ofInt hlow hhigh (by omega) (by omega), Option.map_some, Int32.ofInt_toInt]

theorem int64?_ofInt (n : Int64) : int64? (.number (.ofInt n.toInt)) = some n := by
  have hlow := n.minValue_le_toInt
  have hhigh : n.toInt ≤ Int64.maxValue.toInt := Int64.toInt_le n
  have hmax : Int64.maxValue.toInt = 9223372036854775807 := rfl
  have hsize : UInt64.size = 18446744073709551616 := rfl
  rw [int64?, integer?_ofInt hlow hhigh hlow (by omega), Option.map_some, Int64.ofInt_toInt]

theorem uint32?_ofInt (n : UInt32) : uint32? (.number (.ofInt n.toNat)) = some n := by
  rw [uint32?, natural?_ofInt n.toNat_lt (by decide), Option.map_some, UInt32.ofNat_toNat]

theorem uint64?_ofInt (n : UInt64) : uint64? (.number (.ofInt n.toNat)) = some n := by
  rw [uint64?, natural?_ofInt n.toNat_lt le_rfl, Option.map_some, UInt64.ofNat_toNat]

/-- Bytes are read back from the list of their numbers. -/
theorem bytes?_byteNumbers (b : Bytes) : (byteNumbers b).document?.bind bytes? = some b := by
  have hbyte (byte : UInt8) :
      (document? (.integer byte.toNat)).bind
        (fun d => (d.natural? 256).map UInt8.ofNat) = some byte := by
    rw [document?, Option.bind_some, natural?_ofInt byte.toNat_lt (by decide), Option.map_some,
      UInt8.ofNat_toNat]
  rw [byteNumbers]
  refine (bind_list?_array _ _).trans ?_
  rw [List.mapM_map]
  exact mapM_eq_some_self fun byte _ => hbyte byte

/-- A type is found by its name. -/
theorem find?_tag (t : ScalarType) : (ScalarType.all.find? fun s => tag s == tag t) = some t := by
  cases t <;> rfl

/-- The tagged form of a value is read as its content with its type. -/
theorem bind_ofDocument?_toTagged (v : Value) :
    v.toTagged.document?.bind ofDocument? = v.untagged.document?.bind (ofContent? v.type) := by
  have hread (d : Document) :
      ofDocument? (.object [(some (tag v.type), d)]) = ofContent? v.type d := by
    rw [ofDocument?]
    dsimp only [Document.case?, Option.map]
    rw [find?_tag, Option.bind_some]
  rw [toTagged, document?, memberDocuments?, memberDocument?]
  cases v.untagged.document? with
  | none => rfl
  | some d => exact hread d

/-- A value that is no float is read back from its tagged form. -/
theorem ofDocument?_toTagged {v : Value} (h : v.type ≠ .float64) :
    v.toTagged.document?.bind ofDocument? = some v := by
  rw [bind_ofDocument?_toTagged]
  cases v with
  | bool b => rfl
  | int32 n =>
    rw [untagged, document?, Option.bind_some, type, ofContent?, int32?_ofInt, Option.map_some]
  | int64 n =>
    rw [untagged, document?, Option.bind_some, type, ofContent?, int64?_ofInt, Option.map_some]
  | uint32 n =>
    rw [untagged, document?, Option.bind_some, type, ofContent?, uint32?_ofInt, Option.map_some]
  | uint64 n =>
    rw [untagged, document?, Option.bind_some, type, ofContent?, uint64?_ofInt, Option.map_some]
  | float64 x => exact absurd rfl h
  | string s => rfl
  | bytes b =>
    obtain ⟨d, hd, hb⟩ := Option.bind_eq_some_iff.mp (bytes?_byteNumbers b)
    rw [untagged, hd, Option.bind_some, type, ofContent?, hb, Option.map_some]
  | checksum256 c =>
    obtain ⟨d, hd, hb⟩ := Option.bind_eq_some_iff.mp (bytes?_byteNumbers c.bytes)
    have hc : Checksum.ofBytes? c.bytes = some c := dif_pos c.length_eq
    rw [untagged, hd, Option.bind_some, type, ofContent?, hb, Option.bind_some, hc,
      Option.map_some]
  | timestamp n =>
    rw [untagged, document?, Option.bind_some, type, ofContent?, int64?_ofInt, Option.map_some]

/-- A float without a text is not read. -/
theorem ofDocument?_of_not_isFinite {v : Value} (h : v.isFinite = false) :
    v.toTagged.document?.bind ofDocument? = none := by
  rw [bind_ofDocument?_toTagged]
  cases v with
  | float64 x =>
    have hx : ¬x.isFinite = true := by simpa only [Value.isFinite, Bool.not_eq_true] using h
    rw [untagged, document?, if_neg hx]
    rfl
  | _ => cases h

end Value

namespace Tuple

variable {t : Tuple}

theorem bind_ofDocument?_toTagged (t : Tuple) :
    (toTagged t).document?.bind ofDocument? =
      t.mapM fun v => v.toTagged.document?.bind Value.ofDocument? := by
  refine (Json.bind_list?_array Value.ofDocument? _).trans ?_
  rw [List.mapM_map]
  rfl

/-- A tuple without floats is read back from its tagged form. -/
theorem ofDocument?_toTagged (h : ∀ v ∈ t, v.type ≠ .float64) :
    (toTagged t).document?.bind ofDocument? = some t := by
  rw [bind_ofDocument?_toTagged]
  exact mapM_eq_some_self fun v hv => Value.ofDocument?_toTagged (h v hv)

/-- A tuple with a float that has no text is not read. -/
theorem ofDocument?_of_not_isFinite (h : ∃ v ∈ t, v.isFinite = false) :
    (toTagged t).document?.bind ofDocument? = none := by
  obtain ⟨v, hv, hfinite⟩ := h
  rw [bind_ofDocument?_toTagged]
  exact mapM_eq_none hv (Value.ofDocument?_of_not_isFinite hfinite)

end Tuple

namespace Request

open Json Document in
/-- The fields of a request are found among its members. -/
theorem fields?_members (query block first last rows : Document) :
    fields? [.required "query", .required "max_block_index", .required "first",
        .required "last", .required "max_results"]
      (.object [(some "query", query), (some "max_block_index", block), (some "first", first),
        (some "last", last), (some "max_results", rows)]) =
      some [some query, some block, some first, some last, some rows] := rfl

/-- A request without floats in its bounds is read back from its JSON form. -/
theorem ofDocument?_toJson {r : Request} (hfirst : ∀ v ∈ r.first, v.type ≠ .float64)
    (hlast : ∀ v ∈ r.last, v.type ≠ .float64) : r.toJson.document?.bind ofDocument? = some r := by
  obtain ⟨first, hfirstDoc, hfirstRead⟩ :=
    Option.bind_eq_some_iff.mp (Tuple.ofDocument?_toTagged hfirst)
  obtain ⟨last, hlastDoc, hlastRead⟩ :=
    Option.bind_eq_some_iff.mp (Tuple.ofDocument?_toTagged hlast)
  have hdocument : r.toJson.document? = some (.object [(some "query", .string (some r.query)),
      (some "max_block_index", .number (.ofInt r.maxBlock.toNat)), (some "first", first),
      (some "last", last), (some "max_results", .number (.ofInt r.maxResults.toNat))]) := by
    simp only [toJson, Json.document?, Json.memberDocuments?, Json.memberDocument?, hfirstDoc,
      hlastDoc, Option.map_some, Option.bind_eq_bind, Option.bind_some, Option.pure_def]
  rw [hdocument, Option.bind_some, ofDocument?, fields?_members]
  dsimp only [Json.Document.string?]
  rw [Value.uint64?_ofInt, hfirstRead, hlastRead, Value.uint32?_ofInt]
  rfl

end Request

/-- Tokens and requests survive their JSON text. A tuple without floats is read
back as it was, and so is a request without floats in its bounds. A tuple with an
infinite float or one that is no number is refused as a token. -/
theorem tagged_texts_read_back :
    (∀ t : Tuple, (∀ v ∈ t, v.type ≠ .float64) →
      Response.tokenOfText (Tuple.toTagged t).text = .ok t) ∧
    (∀ r : Request, (∀ v ∈ r.first ++ r.last, v.type ≠ .float64) →
      Request.ofText? r.toJson.text = some r) ∧
    ∀ t : Tuple, (∃ x, .float64 x ∈ t ∧ x.isFinite = false) →
      Response.tokenOfText (Tuple.toTagged t).text = .error .invalidToken := by
  refine ⟨fun t ht => ?_, fun r hr => ?_, fun t ⟨x, hx, hfinite⟩ => ?_⟩
  · rw [Response.tokenOfText, Json.ofText?_text, Tuple.ofDocument?_toTagged ht]
  · obtain ⟨hfirst, hlast⟩ := List.forall_mem_append.mp hr
    rw [Request.ofText?, Json.ofText?_text, Request.ofDocument?_toJson hfirst hlast]
  · rw [Response.tokenOfText, Json.ofText?_text,
      Tuple.ofDocument?_of_not_isFinite ⟨.float64 x, hx, hfinite⟩]

/-- Quotes, control characters, a character beyond sixteen bits and the extremes
of the integers come back in a token and in a bound of a request. Beside a float
that is no number they are refused. -/
theorem sample_tagged_texts_read_back :
    let token : Tuple := [.string "\"\\\n\x00\x1f\x7f😀", .bytes [0, 255],
      .checksum256 .zero, .bool true, .int32 Int32.minValue, .int64 Int64.minValue,
      .uint32 4294967295, .uint64 18446744073709551615, .timestamp Int64.maxValue]
    let request : Request := ⟨"probes\t", 18446744073709551615, token, [], 4294967295⟩
    Response.tokenOfText (Tuple.toTagged token).text = .ok token ∧
      Request.ofText? request.toJson.text = some request ∧
      Response.tokenOfText (Tuple.toTagged (token ++ [.float64 ⟨0x7FF8000000000000⟩])).text =
        .error .invalidToken := by
  intro token request
  obtain ⟨htoken, hrequest, hrefused⟩ := tagged_texts_read_back
  exact ⟨htoken token (by decide), hrequest request (by decide),
    hrefused _ ⟨⟨0x7FF8000000000000⟩, by simp, by decide⟩⟩

end Chronicle
