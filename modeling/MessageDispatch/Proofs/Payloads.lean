import MessageDispatch.Payload
import MessageDispatch.Proofs.Numerals

/-! Payloads decode back to what they were built from. A text and bytes are the body themselves; a
JSON value is written out and read again, which puts the members of its objects in order, the last
of those with one name winning. -/
namespace MessageDispatch

namespace Json

/-! ## Values that are read again -/

mutual

/-- Are all numbers of a value integers that are kept exactly? -/
def Integral : Json → Prop
  | .number (.integer n) => Number.isExact n = true
  | .number (.decimal _) => False
  | .array items => IntegralItems items
  | .object members => IntegralMembers members
  | _ => True

def IntegralItems : List Json → Prop
  | [] => True
  | item :: items => item.Integral ∧ IntegralItems items

def IntegralMembers : List (String × Json) → Prop
  | [] => True
  | (_, value) :: members => value.Integral ∧ IntegralMembers members

end

mutual

/-- The value with each member name once, in the order of the names. -/
def normal : Json → Json
  | .array items => .array (normalItems items)
  | .object members => .ofMembers (normalMembers members)
  | v => v

def normalItems : List Json → List Json
  | [] => []
  | item :: items => item.normal :: normalItems items

def normalMembers : List (String × Json) → List (String × Json)
  | [] => []
  | (name, value) :: members => (name, value.normal) :: normalMembers members

end

mutual

/-- Do all objects of a value hold their members in the order of their names, each name once? -/
def Ordered : Json → Prop
  | .array items => OrderedItems items
  | .object members => Assoc.Sorted members ∧ OrderedMembers members
  | _ => True

def OrderedItems : List Json → Prop
  | [] => True
  | item :: items => item.Ordered ∧ OrderedItems items

def OrderedMembers : List (String × Json) → Prop
  | [] => True
  | (_, value) :: members => value.Ordered ∧ OrderedMembers members

end

mutual

theorem readable_of_integral (v : Json) (hv : v.Integral) : v.Readable := by
  match v with
  | .null | .bool _ | .string _ => simp only [Readable]
  | .number (.integer n) =>
    simp only [Readable]
    exact readsBack_integer (by simpa only [Integral] using hv)
  | .number (.decimal x) => simp only [Integral] at hv
  | .array items =>
    simp only [Integral] at hv
    simp only [Readable]
    exact readableItems_of_integral items hv
  | .object members =>
    simp only [Integral] at hv
    simp only [Readable]
    exact readableMembers_of_integral members hv

theorem readableItems_of_integral (items : List Json) (h : IntegralItems items) :
    ReadableItems items := by
  match items with
  | [] => simp only [ReadableItems]
  | item :: items =>
    simp only [IntegralItems] at h
    simp only [ReadableItems]
    exact ⟨readable_of_integral item h.1, readableItems_of_integral items h.2⟩

theorem readableMembers_of_integral (members : List (String × Json))
    (h : IntegralMembers members) : ReadableMembers members := by
  match members with
  | [] => simp only [ReadableMembers]
  | (_, value) :: members =>
    simp only [IntegralMembers] at h
    simp only [ReadableMembers]
    exact ⟨readable_of_integral value h.1, readableMembers_of_integral members h.2⟩

end

theorem OrderedMembers.put {name : String} {value : Json} (hvalue : value.Ordered)
    {members : List (String × Json)} (h : OrderedMembers members) :
    OrderedMembers (Assoc.put name value members) := by
  induction members with
  | nil => simpa only [Assoc.put, OrderedMembers, and_true] using hvalue
  | cons member members ih =>
    obtain ⟨hmember, hmembers⟩ : member.2.Ordered ∧ OrderedMembers members := by
      simpa only [OrderedMembers] using h
    simp only [Assoc.put]
    split
    · exact ⟨hvalue, hmember, hmembers⟩
    · split
      · exact ⟨hvalue, hmembers⟩
      · exact ⟨hmember, ih hmembers⟩

theorem OrderedMembers.ofList {members : List (String × Json)} (h : OrderedMembers members) :
    OrderedMembers (Assoc.ofList members) := by
  suffices hall : ∀ acc, OrderedMembers acc →
      OrderedMembers (members.foldl (fun acc e => Assoc.put e.1 e.2 acc) acc) from hall [] trivial
  intro acc hacc
  induction members generalizing acc with
  | nil => exact hacc
  | cons member members ih =>
    obtain ⟨hmember, hmembers⟩ : member.2.Ordered ∧ OrderedMembers members := by
      simpa only [OrderedMembers] using h
    exact ih hmembers _ (hacc.put hmember)

mutual

theorem ordered_normal (v : Json) : v.normal.Ordered := by
  match v with
  | .null | .bool _ | .number _ | .string _ => simp only [normal, Ordered]
  | .array items =>
    simp only [normal, Ordered]
    exact orderedItems_normal items
  | .object members =>
    simp only [normal, ofMembers, Ordered]
    exact ⟨Assoc.sorted_ofList _, (orderedMembers_normal members).ofList⟩

theorem orderedItems_normal (items : List Json) : OrderedItems (normalItems items) := by
  match items with
  | [] => simp only [normalItems, OrderedItems]
  | item :: items =>
    simp only [normalItems, OrderedItems]
    exact ⟨ordered_normal item, orderedItems_normal items⟩

theorem orderedMembers_normal (members : List (String × Json)) :
    OrderedMembers (normalMembers members) := by
  match members with
  | [] => simp only [normalMembers, OrderedMembers]
  | (_, value) :: members =>
    simp only [normalMembers, OrderedMembers]
    exact ⟨ordered_normal value, orderedMembers_normal members⟩

end

mutual

/-- A value whose members are in order stays as it is. -/
theorem normal_of_ordered (v : Json) (hv : v.Ordered) : v.normal = v := by
  match v with
  | .null | .bool _ | .number _ | .string _ => simp only [normal]
  | .array items =>
    simp only [Ordered] at hv
    simp only [normal, normalItems_of_ordered items hv]
  | .object members =>
    simp only [Ordered] at hv
    simp only [normal, ofMembers, normalMembers_of_ordered members hv.2,
      Assoc.ofList_of_sorted hv.1]

theorem normalItems_of_ordered (items : List Json) (h : OrderedItems items) :
    normalItems items = items := by
  match items with
  | [] => simp only [normalItems]
  | item :: items =>
    simp only [OrderedItems] at h
    simp only [normalItems, normal_of_ordered item h.1, normalItems_of_ordered items h.2]

theorem normalMembers_of_ordered (members : List (String × Json)) (h : OrderedMembers members) :
    normalMembers members = members := by
  match members with
  | [] => simp only [normalMembers]
  | (_, value) :: members =>
    simp only [OrderedMembers] at h
    simp only [normalMembers, normal_of_ordered value h.1, normalMembers_of_ordered members h.2]

end

/-! ## Texts that are not empty -/

theorem decimalChars_ne_nil (s : Decimal.Scaled) : decimalChars s ≠ [] := by
  unfold decimalChars
  dsimp only
  split
  · split
    · simp
    · split <;> simp
  · simp

theorem numberChars_ne_nil (n : Number) : numberChars n ≠ [] := by
  cases n with
  | integer n =>
    cases n with
    | ofNat m =>
      have htext : numberChars (.integer (Int.ofNat m)) = Nat.toDigits 10 m := Nat.toList_repr
      rw [htext]
      exact Nat.toDigits_ne_nil
    | negSucc m => simp [numberChars, toString, Int.repr]
  | decimal x =>
    simp only [numberChars, floatChars]
    split
    · split
      · simp
      · exact decimalChars_ne_nil _
    · simp

theorem chars_ne_nil (v : Json) : v.chars ≠ [] := by
  match v with
  | .number n =>
    simp only [chars]
    exact numberChars_ne_nil n
  | .null | .bool true | .bool false | .string _ | .array [] | .array (_ :: _) | .object []
  | .object ((_, _) :: _) => simp [chars, quote]

end Json

/-! ## Documents as values -/

namespace Document

open Json

mutual

/-- A document of a value that does not nest too deep is that value. -/
theorem value?_ofJson (room : Nat) (v : Json) (hv : v.depth ≤ room) :
    value? room (ofJson v) = some v.normal := by
  match v with
  | .null | .bool _ | .number _ | .string _ => simp [ofJson, value?, normal]
  | .array items =>
    simp only [depth] at hv
    obtain ⟨room, rfl⟩ : ∃ n, room = n + 1 := ⟨room - 1, by omega⟩
    have hitems := items?_ofItems room items (by omega)
    simp [ofJson, value?, normal, hitems]
  | .object members =>
    simp only [depth] at hv
    obtain ⟨room, rfl⟩ : ∃ n, room = n + 1 := ⟨room - 1, by omega⟩
    have hmembers := members?_ofMembers room members (by omega)
    simp [ofJson, value?, normal, hmembers]

theorem items?_ofItems (room : Nat) (items : List Json) (h : depthItems items ≤ room) :
    items? room (ofItems items) = some (normalItems items) := by
  match items with
  | [] => simp [ofItems, items?, normalItems]
  | item :: items =>
    simp only [depthItems] at h
    have hitem := value?_ofJson room item (by omega)
    have hitems := items?_ofItems room items (by omega)
    simp [ofItems, items?, normalItems, hitem, hitems]

theorem members?_ofMembers (room : Nat) (members : List (String × Json))
    (h : depthMembers members ≤ room) :
    members? room (ofMembers members) = some (normalMembers members) := by
  match members with
  | [] => simp [ofMembers, members?, normalMembers]
  | (name, value) :: members =>
    simp only [depthMembers] at h
    have hvalue := value?_ofJson room value (by omega)
    have hmembers := members?_ofMembers room members (by omega)
    simp [ofMembers, members?, normalMembers, hvalue, hmembers]

end

end Document

theorem Json.parse?_render {v : Json} (hv : v.Integral) (hdepth : v.depth ≤ Document.maxDepth) :
    Json.parse? v.render = some v.normal := by
  rw [Json.parse?, Document.parse?_render v (Json.readable_of_integral v hv), Option.bind_some,
    Document.value?_ofJson _ v hdepth]

/-! ## Payloads -/

namespace Payload

/-- A payload with headers added one after another. -/
def withEach (p : Payload) (entries : List (String × String)) : Payload :=
  entries.foldl (fun p entry => p.withHeader entry.1 entry.2) p

variable {entries : List (String × String)}

/-- Headers have no part in how a payload is decoded. -/
@[simp] theorem decode_withEach (p : Payload) (entries : List (String × String)) :
    (p.withEach entries).decode = p.decode := by
  induction entries generalizing p with
  | nil => rfl
  | cons entry entries ih => exact (ih (p.withHeader entry.1 entry.2)).trans rfl

theorem size_toUTF8_eq_zero_iff (s : String) : s.toUTF8.size = 0 ↔ s = "" :=
  String.utf8ByteSize_eq_zero_iff

theorem decode_text {s : String} (hs : s ≠ "") : (text s).decode = .ok (.text s) := by
  have hsize : ¬ s.toUTF8.size = 0 := mt (size_toUTF8_eq_zero_iff s).mp hs
  have hjson : ContentType.isJson ContentType.text = false := by decide
  have htext : ContentType.isText ContentType.text = true := by decide
  rw [decode, text, Decoded.ofBody.eq_def, if_neg hsize]
  simp only [hjson, htext, Bool.false_eq_true, if_false, if_true, Decoded.readText,
    Text.decode?_toUTF8]

theorem decode_bytes {b : ByteArray} (hb : b.size ≠ 0) : (bytes b).decode = .ok (.bytes b) := by
  rw [decode, bytes, Decoded.ofBody, if_neg hb]

theorem decode_of_size_eq_zero {p : Payload} (hp : p.body.size = 0) : p.decode = .ok .empty := by
  rw [decode, Decoded.ofBody.eq_def, if_pos hp]

theorem size_json (v : Json) : (json v).body.size ≠ 0 := by
  intro hsize
  have hrender := (size_toUTF8_eq_zero_iff _).mp hsize
  exact v.chars_ne_nil (String.ofList_eq_empty_iff.mp hrender)

theorem decode_json (v : Json) : (json v).decode = Decoded.readJson v.render.toUTF8 := by
  have hjson : ContentType.isJson ContentType.json = true := by decide
  rw [decode, Decoded.ofBody.eq_def, if_neg (size_json v)]
  simp only [json, hjson, if_true]

theorem decode_json_of_integral {v : Json} (hv : v.Integral)
    (hdepth : v.depth ≤ Document.maxDepth) : (json v).decode = .ok (.json v.normal) := by
  have hutf8 : String.fromUTF8? v.render.toUTF8 = some v.render := Text.decode?_toUTF8 v.render
  have hparse : Json.parseBytes? v.render.toUTF8 = some v.normal := by
    rw [Json.parseBytes?, hutf8]
    exact Json.parse?_render hv hdepth
  rw [decode_json, Decoded.readJson, hparse]

theorem decode_json_ne_empty (v : Json) : (json v).decode ≠ .ok .empty := by
  rw [decode_json, Decoded.readJson]
  split <;> simp

/-- What payloads decode to once these headers are added to them. -/
structure DecodesBack (entries : List (String × String)) : Prop where
  text : ∀ s, s ≠ "" → ((Payload.text s).withEach entries).decode = .ok (.text s)
  bytes : ∀ b, b.size ≠ 0 → ((Payload.bytes b).withEach entries).decode = .ok (.bytes b)
  /-- A value is read back with the members of its objects in order and each name once. -/
  json : ∀ v : Json, v.Integral → v.depth ≤ Document.maxDepth →
    ((Payload.json v).withEach entries).decode = .ok (.json v.normal) ∧ v.normal.Ordered
  /-- Where that is how the value is held, it comes back as it was. -/
  ordered : ∀ v : Json, v.Integral → v.depth ≤ Document.maxDepth → v.Ordered →
    ((Payload.json v).withEach entries).decode = .ok (.json v)
  converted : ∀ v : Json, ∃ p, ofDecoded (.json v) = some p ∧
    (p.withEach entries).decode = ((Payload.json v).withEach entries).decode
  empty_text : ((Payload.text "").withEach entries).decode = .ok .empty
  empty_bytes : ∀ b, b.size = 0 → ((Payload.bytes b).withEach entries).decode = .ok .empty
  json_ne_empty : ∀ v, ((Payload.json v).withEach entries).decode ≠ .ok .empty

theorem decodesBack (entries : List (String × String)) : DecodesBack entries where
  text s hs := by rw [decode_withEach, decode_text hs]
  bytes b hb := by rw [decode_withEach, decode_bytes hb]
  json v hv hdepth := by
    rw [decode_withEach, decode_json_of_integral hv hdepth]
    exact ⟨rfl, v.ordered_normal⟩
  ordered v hv hdepth hordered := by
    rw [decode_withEach, decode_json_of_integral hv hdepth, Json.normal_of_ordered v hordered]
  converted v := ⟨Payload.json v, rfl, rfl⟩
  empty_text := by
    rw [decode_withEach]
    exact decode_of_size_eq_zero ((size_toUTF8_eq_zero_iff "").mpr rfl)
  empty_bytes b hb := by
    rw [decode_withEach]
    exact decode_of_size_eq_zero hb
  json_ne_empty v := by
    rw [decode_withEach]
    exact decode_json_ne_empty v

/-- An order with a name that is escaped, the largest and the smallest integer and an object inside
an array. -/
theorem decodesBack_order :
    let order : Json := .object
      [("lines", .array [.object [("\"é\"\n", .string "\u0001")], .null]),
        ("max", .integer 18446744073709551615), ("min", .integer (-9223372036854775808))]
    ((Payload.json order).withEach [("trace", "1")]).decode = .ok (.json order) := by
  refine (decodesBack [("trace", "1")]).ordered _ ?_ ?_ ?_
  · simp only [Json.Integral, Json.IntegralItems, Json.IntegralMembers, Json.integer]
    decide
  · decide
  · simp only [Json.Ordered, Json.OrderedItems, Json.OrderedMembers, Json.integer]
    decide

end Payload
end MessageDispatch
