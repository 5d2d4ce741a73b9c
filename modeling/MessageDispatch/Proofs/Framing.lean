import MessageDispatch.Protocol.Redis
import MessageDispatch.Proofs.Grammar

/-! What Redis takes for a frame. The documentation knows one form of it, an object with its members
`data` and `headers`; anything else is a body. The reader takes more than that, and the bytes where
the two differ are exactly told. -/
namespace MessageDispatch.Redis

open Document (Written)
open Json (Token)

/-! ## Frames as documented -/

/-- Does an object have one member of this name, with this value? -/
def Sole (name : String) (d : Document) (members : List (Option String × Document)) : Prop :=
  ∃ before after, members = before ++ (some name, d) :: after ∧
    ∀ m ∈ before ++ after, m.1 ≠ some name

/-- An object of texts. -/
def texts (entries : List (String × String)) : Document :=
  .object (entries.map fun e => (some e.1, .string (some e.2)))

/-- The members of a frame: a text, perhaps an object of texts, and whatever else. -/
inductive Frame.Of (members : List (Option String × Document)) : Frame → Prop where
  | bare {data : String} (hdata : Sole "data" (.string (some data)) members)
      (hheaders : ∀ m ∈ members, m.1 ≠ some "headers") : Of members ⟨data, .empty⟩
  | headed {data : String} {entries : List (String × String)}
      (hdata : Sole "data" (.string (some data)) members)
      (hheaders : Sole "headers" (texts entries) members) : Of members ⟨data, .ofList entries⟩

/-- Bytes that are a frame according to the documentation: the UTF-8 text of an object with the
members of one. -/
def Documented (bytes : ByteArray) (f : Frame) : Prop :=
  ∃ (text : String) (members : List (Option String × Document)), bytes = text.toUTF8 ∧
    (Document.object members).Written (text.toList.map some) ∧ f.Of members

/-- The envelope of a frame, with metadata from the headers as far as they are not empty. -/
def Frame.envelope (fresh : String) (f : Frame) : Envelope :=
  { body := f.data.toUTF8
    decoded := none
    contentType := f.headers.nonEmpty? HeaderName.contentType
    replyTo := (f.headers.nonEmpty? HeaderName.replyTo).getD ""
    headers := f.headers
    messageId := (f.headers.nonEmpty? HeaderName.messageId).getD fresh
    correlationId := (f.headers.nonEmpty? HeaderName.correlationId).getD
      ((f.headers.nonEmpty? HeaderName.messageId).getD fresh)
    processed := false }

/-- The envelope of a body without metadata. -/
def bareEnvelope (fresh : String) (bytes : ByteArray) : Envelope :=
  { body := bytes, decoded := none, contentType := none, replyTo := "", headers := .empty,
    messageId := fresh, correlationId := fresh, processed := false }

/-- The envelope that the documentation promises: frames are unwrapped and nothing else. -/
structure AsDocumented (fresh : String) (bytes : ByteArray) (e : Envelope) : Prop where
  frame : ∀ f, Documented bytes f → e = f.envelope fresh
  bare : (∀ f, ¬ Documented bytes f) → e = bareEnvelope fresh bytes

/-! ## Frames as they are taken -/

/-- The items of an array that is taken for a frame. -/
inductive Frame.OfItems : List Document → Frame → Prop where
  | bare {data : String} : OfItems [.string (some data)] ⟨data, .empty⟩
  | headed {data : String} {entries : List (String × String)} :
      OfItems [.string (some data), texts entries] ⟨data, .ofList entries⟩

/-- What is taken for a frame: an object with the members of one in which every name is a text, or
an array of the values of these members. -/
inductive Frame.Taken : Document → Frame → Prop where
  | object {members : List (Option String × Document)} {f : Frame}
      (hnames : ∀ m ∈ members, m.1 ≠ none) (h : f.Of members) : Taken (.object members) f
  | array {items : List Document} {f : Frame} (h : f.OfItems items) : Taken (.array items) f

/-- Bytes that are taken for a frame. They need not be UTF-8 within the strings of other members,
which nobody reads. -/
def Unwraps (bytes : ByteArray) (f : Frame) : Prop :=
  ∃ d : Document, d.Written (Text.pieces bytes) ∧ f.Taken d

/-- Bytes that are not taken for what they are: an array for a frame, an object that is not all
UTF-8 for one, and a frame with a name that is no text for a body. -/
inductive Misread (bytes : ByteArray) : Prop where
  | array {items : List Document} {f : Frame}
      (hwritten : (Document.array items).Written (Text.pieces bytes)) (h : f.OfItems items)
  | spoilt {members : List (Option String × Document)} {f : Frame}
      (hbytes : ∀ text : String, bytes ≠ text.toUTF8)
      (hwritten : (Document.object members).Written (Text.pieces bytes))
      (hnames : ∀ m ∈ members, m.1 ≠ none) (h : f.Of members)
  | nameless {text : String} {members : List (Option String × Document)} {f : Frame}
      (hbytes : bytes = text.toUTF8)
      (hwritten : (Document.object members).Written (text.toList.map some))
      (hname : ∃ m ∈ members, m.1 = none) (h : f.Of members)

section
variable {members : List (Option String × Document)} {d : Document} {f : Frame} {name : String}
variable {bytes : ByteArray}

theorem sole_iff :
    Sole name d members ↔ members.filter (fun m => m.1 == some name) = [(some name, d)] := by
  rw [List.filter_eq_cons_iff]
  constructor
  · rintro ⟨before, after, rfl, hother⟩
    refine ⟨before, after, rfl, ?_, by simp, List.filter_eq_nil_iff.mpr ?_⟩
    · intro m hm
      simpa using hother m (List.mem_append_left _ hm)
    · intro m hm
      simpa using hother m (List.mem_append_right _ hm)
  · rintro ⟨before, after, rfl, hbefore, -, hafter⟩
    refine ⟨before, after, rfl, ?_⟩
    intro m hm
    obtain hm | hm := List.mem_append.mp hm
    · simpa using hbefore m hm
    · simpa using List.filter_eq_nil_iff.mp hafter m hm

theorem none_iff : (∀ m ∈ members, m.1 ≠ some name) ↔
    members.filter (fun m => m.1 == some name) = [] := by
  rw [List.filter_eq_nil_iff]
  simp

theorem name_of_filter {m : Option String × Document}
    (h : members.filter (fun m => m.1 == some name) = [m]) : m.1 = some name := by
  have hm : m ∈ members.filter (fun m => m.1 == some name) := by
    rw [h]
    exact List.mem_singleton_self m
  simpa using List.of_mem_filter hm

theorem Sole.mem (h : Sole name d members) : (some name, d) ∈ members := by
  obtain ⟨before, after, rfl, -⟩ := h
  simp

/-! ## The reader of frames -/

namespace Frame

theorem header?_eq_some {m : Option String × Document} {e : String × String} :
    header? m = some e ↔ m = (some e.1, .string (some e.2)) := by
  constructor
  · intro h
    unfold header? at h
    split at h
    · cases h
      rfl
    · cases h
  · rintro rfl
    rfl

theorem mapM_header? {entries : List (String × String)} :
    members.mapM header? = some entries ↔
      members = entries.map fun e => (some e.1, .string (some e.2)) := by
  induction members generalizing entries with
  | nil => cases entries <;> simp
  | cons m members ih =>
    rw [List.mapM_cons]
    cases entries with
    | nil => simp [Option.bind_eq_some_iff]
    | cons e entries => simp [Option.bind_eq_some_iff, header?_eq_some, ih]

theorem headers?_eq_some {h : Headers} :
    headers? d = some h ↔ ∃ entries, d = texts entries ∧ h = .ofList entries := by
  constructor
  · intro hheaders
    unfold headers? at hheaders
    split at hheaders
    · obtain ⟨entries, hentries, rfl⟩ := Option.map_eq_some_iff.mp hheaders
      exact ⟨entries, congrArg Document.object (mapM_header?.mp hentries), rfl⟩
    · cases hheaders
  · rintro ⟨entries, rfl, rfl⟩
    rw [texts, headers?, mapM_header?.mpr rfl]
    rfl

theorem data?_eq_some {data : String} : data? d = some data ↔ d = .string (some data) := by
  constructor
  · intro h
    unfold data? at h
    split at h
    · rw [h]
    · cases h
  · rintro rfl
    rfl

/-- A text by itself is a frame without headers. -/
theorem join?_none : join? d none = some f ↔
    ∃ data, d = .string (some data) ∧ f = ⟨data, .empty⟩ := by
  simp only [join?, ← data?_eq_some]
  cases data? d <;> simp [eq_comm]

theorem join?_some {headers : Document} : join? d (some headers) = some f ↔
    ∃ data entries, d = .string (some data) ∧ headers = texts entries ∧
      f = ⟨data, .ofList entries⟩ := by
  constructor
  · intro h
    unfold join? at h
    split at h
    · cases ‹some headers = none›
    · rename_i hdata heq
      cases heq
      obtain ⟨hs, hheaders, rfl⟩ := Option.map_eq_some_iff.mp h
      obtain ⟨entries, rfl, rfl⟩ := headers?_eq_some.mp hheaders
      exact ⟨_, entries, data?_eq_some.mp hdata, rfl, rfl⟩
    · cases h
  · rintro ⟨data, entries, rfl, rfl, rfl⟩
    have hheaders : headers? (texts entries) = some (.ofList entries) :=
      headers?_eq_some.mpr ⟨entries, rfl, rfl⟩
    simp [join?, data?, hheaders]

/-- The members that are looked for make up a frame. -/
theorem of_iff : f.Of members ↔
    (∃ data, members.filter (fun m => m.1 == some "data") = [(some "data", data)] ∧
        members.filter (fun m => m.1 == some "headers") = [] ∧ join? data none = some f) ∨
      ∃ data headers, members.filter (fun m => m.1 == some "data") = [(some "data", data)] ∧
        members.filter (fun m => m.1 == some "headers") = [(some "headers", headers)] ∧
        join? data (some headers) = some f := by
  simp only [← sole_iff, ← none_iff, join?_none, join?_some]
  constructor
  · rintro (⟨hdata, hheaders⟩ | ⟨hdata, hheaders⟩)
    · exact .inl ⟨_, hdata, hheaders, _, rfl, rfl⟩
    · exact .inr ⟨_, _, hdata, hheaders, _, _, rfl, rfl, rfl⟩
  · rintro (⟨_, hdata, hheaders, _, rfl, rfl⟩ | ⟨_, _, hdata, hheaders, _, _, rfl, rfl, rfl⟩)
    · exact .bare hdata hheaders
    · exact .headed hdata hheaders

/-- An object is taken for a frame if all of its names are texts and it has the members of one. -/
theorem ofDocument?_object : ofDocument? (.object members) = some f ↔
    (∀ m ∈ members, m.1 ≠ none) ∧ f.Of members := by
  have hany : members.any (fun m => m.1.isNone) = true ↔ ¬ ∀ m ∈ members, m.1 ≠ none := by simp
  rw [of_iff, ofDocument?]
  by_cases hnames : ∀ m ∈ members, m.1 ≠ none
  · rw [if_neg (by rw [hany]; exact not_not.mpr hnames)]
    constructor
    · intro h
      split at h
      · rename_i n data hdata hheaders
        obtain rfl : n = some "data" := name_of_filter hdata
        exact ⟨hnames, .inl ⟨data, hdata, hheaders, h⟩⟩
      · rename_i n data n' headers hdata hheaders
        obtain rfl : n = some "data" := name_of_filter hdata
        obtain rfl : n' = some "headers" := name_of_filter hheaders
        exact ⟨hnames, .inr ⟨data, headers, hdata, hheaders, h⟩⟩
      · cases h
    · rintro ⟨-, ⟨data, hdata, hheaders, h⟩ | ⟨data, headers, hdata, hheaders, h⟩⟩
      · simp [hdata, hheaders, h]
      · simp [hdata, hheaders, h]
  · rw [if_pos (hany.mpr hnames)]
    constructor
    · intro h
      cases h
    · intro h
      exact absurd h.1 hnames

theorem ofDocument?_array {items : List Document} :
    ofDocument? (.array items) = some f ↔ f.OfItems items := by
  match items with
  | [] | _ :: _ :: _ :: _ =>
    constructor <;> intro h <;> cases h
  | [data] =>
    rw [ofDocument?, join?_none]
    constructor
    · rintro ⟨_, rfl, rfl⟩
      exact .bare
    · rintro ⟨⟩
      exact ⟨_, rfl, rfl⟩
  | [data, headers] =>
    rw [ofDocument?, join?_some]
    constructor
    · rintro ⟨_, _, rfl, rfl, rfl⟩
      exact .headed
    · intro h
      cases h with
      | headed => exact ⟨_, _, rfl, rfl, rfl⟩

theorem ofDocument?_eq_some : ofDocument? d = some f ↔ f.Taken d := by
  constructor
  · intro h
    cases d with
    | object members =>
      obtain ⟨hnames, hof⟩ := ofDocument?_object.mp h
      exact .object hnames hof
    | array items => exact .array (ofDocument?_array.mp h)
    | _ => cases h
  · intro h
    cases h with
    | object hnames hof => exact ofDocument?_object.mpr ⟨hnames, hof⟩
    | array hitems => exact ofDocument?_array.mpr hitems

/-- Bytes are unwrapped if they are written as what is taken for a frame. -/
theorem decode?_eq_some : decode? bytes = some f ↔ Unwraps bytes f := by
  simp only [decode?, Option.bind_eq_some_iff, Document.parseBytes?_eq_some, ofDocument?_eq_some,
    Unwraps]

theorem envelope_eq (fresh : String) (f : Frame) :
    .ofHeaders fresh f.data.toUTF8 f.headers none none = f.envelope fresh := by
  rw [Envelope.ofHeaders, Envelope.ofMetadata_eq, Envelope.orElse_none, Envelope.orElse_none]
  rfl

end Frame

/-! ## Reading bytes -/

/-- A text that the bytes hold as a string is not what the bytes are. -/
theorem data_ne (hwritten : d.Written (Text.pieces bytes)) {s : String}
    (hs : .string (some s) ∈ d.spelled) : s.toUTF8 ≠ bytes := by
  rintro rfl
  rw [Text.pieces_of_decode? (Text.decode?_toUTF8 s)] at hwritten
  have hlength := hwritten.length_lt_of_string_mem hs
  rw [List.length_map, String.length_toList] at hlength
  exact absurd hlength (Nat.lt_irrefl _)

theorem Frame.Of.data_mem (h : f.Of members) :
    .string (some f.data) ∈ (Document.object members).spelled := by
  cases h with
  | bare hdata | headed hdata =>
    exact Document.mem_spelled_object hdata.mem (by simp [Document.spelled])

theorem Frame.OfItems.data_mem {items : List Document} (h : f.OfItems items) :
    .string (some f.data) ∈ (Document.array items).spelled := by
  cases h <;> simp [Document.spelled]

theorem envelope_ne (fresh : String) (h : f.data.toUTF8 ≠ bytes) :
    f.envelope fresh ≠ bareEnvelope fresh bytes := by
  intro heq
  exact h (congrArg Envelope.body heq)

theorem parse_of_unwraps (fresh : String) {delivery : Delivery} (h : Unwraps delivery.data f) :
    parse fresh delivery = f.envelope fresh := by
  rw [parse, Frame.decode?_eq_some.mpr h]
  exact f.envelope_eq fresh

theorem parse_of_not_unwraps (fresh : String) {delivery : Delivery}
    (h : ∀ f, ¬ Unwraps delivery.data f) :
    parse fresh delivery = bareEnvelope fresh delivery.data := by
  have hnone : Frame.decode? delivery.data = none := by
    rw [Option.eq_none_iff_forall_not_mem]
    intro f hf
    exact h f (Frame.decode?_eq_some.mp hf)
  rw [parse, hnone]
  rfl

/-- What bytes are written as, they are not written as otherwise. -/
theorem written_unique {d' : Document} (h : d.Written (Text.pieces bytes))
    (h' : d'.Written (Text.pieces bytes)) : d = d' := by
  rw [← Document.parseBytes?_eq_some] at h h'
  exact Option.some.inj (h.symm.trans h')

/-- A documented frame is written as an object. -/
theorem Documented.written (h : Documented bytes f) :
    ∃ members, (Document.object members).Written (Text.pieces bytes) ∧ f.Of members := by
  obtain ⟨text, members, rfl, hwritten, hof⟩ := h
  refine ⟨members, ?_, hof⟩
  rwa [Text.pieces_of_decode? (Text.decode?_toUTF8 text)]

end

/-- Bytes that are misread do not get the envelope that the documentation promises. -/
theorem Misread.not_asDocumented {delivery : Delivery} (h : Misread delivery.data)
    (fresh : String) : ¬ AsDocumented fresh delivery.data (parse fresh delivery) := by
  intro hdocumented
  cases h with
  | @array items f hwritten hitems =>
    have hbare := hdocumented.bare fun f' hf' => by
      obtain ⟨members, hmembers, -⟩ := hf'.written
      cases written_unique hwritten hmembers
    rw [parse_of_unwraps fresh ⟨_, hwritten, .array hitems⟩] at hbare
    exact envelope_ne fresh (data_ne hwritten hitems.data_mem) hbare
  | @spoilt members f hbytes hwritten hnames hof =>
    have hbare := hdocumented.bare fun f' hf' => by
      obtain ⟨text, members, hdata, -⟩ := hf'
      exact hbytes text hdata
    rw [parse_of_unwraps fresh ⟨_, hwritten, .object hnames hof⟩] at hbare
    exact envelope_ne fresh (data_ne hwritten hof.data_mem) hbare
  | @nameless text members f hbytes hwritten hname hof =>
    have hframe := hdocumented.frame f ⟨text, members, hbytes, hwritten, hof⟩
    have hpieces : (Document.object members).Written (Text.pieces delivery.data) := by
      rwa [hbytes, Text.pieces_of_decode? (Text.decode?_toUTF8 text)]
    have hnot (f' : Frame) : ¬ Unwraps delivery.data f' := by
      rintro ⟨d, hd, htaken⟩
      obtain rfl := written_unique hpieces hd
      cases htaken with
      | object hnames =>
        obtain ⟨m, hm, hnone⟩ := hname
        exact hnames m hm hnone
    rw [parse_of_not_unwraps fresh hnot] at hframe
    exact envelope_ne fresh (data_ne hpieces hof.data_mem) hframe.symm

/-- All other bytes get it. -/
theorem asDocumented_of_not_misread (fresh : String) {delivery : Delivery}
    (h : ¬ Misread delivery.data) : AsDocumented fresh delivery.data (parse fresh delivery) where
  frame := by
    intro f hf
    obtain ⟨text, members, hbytes, hwritten, hof⟩ := hf
    have hnames : ∀ m ∈ members, m.1 ≠ none := by
      intro m hm hnone
      exact h (.nameless hbytes hwritten ⟨m, hm, hnone⟩ hof)
    apply parse_of_unwraps
    refine ⟨_, ?_, .object hnames hof⟩
    rwa [hbytes, Text.pieces_of_decode? (Text.decode?_toUTF8 text)]
  bare := by
    intro hnone
    apply parse_of_not_unwraps
    rintro f ⟨d, hwritten, htaken⟩
    cases htaken with
    | array hitems => exact h (.array hwritten hitems)
    | @object members _ hnames hof =>
      by_cases htext : ∃ text : String, delivery.data = text.toUTF8
      · obtain ⟨text, hbytes⟩ := htext
        rw [hbytes, Text.pieces_of_decode? (Text.decode?_toUTF8 text)] at hwritten
        exact hnone f ⟨text, members, hbytes, hwritten, hof⟩
      · apply h
        exact .spoilt (fun text hbytes => htext ⟨text, hbytes⟩) hwritten hnames hof

/-- What the envelope of a delivery is, and when it is the one that the documentation promises. -/
structure Unwrapping (fresh : String) (delivery : Delivery) : Prop where
  frame : ∀ f, Unwraps delivery.data f → parse fresh delivery = f.envelope fresh
  bare : (∀ f, ¬ Unwraps delivery.data f) →
    parse fresh delivery = bareEnvelope fresh delivery.data
  asDocumented_iff :
    AsDocumented fresh delivery.data (parse fresh delivery) ↔ ¬ Misread delivery.data

/-- Whatever bytes are delivered, they are unwrapped if they are taken for a frame and are the body
themselves otherwise; this is as documented unless they are misread. -/
theorem parse_unwrapping (fresh : String) (delivery : Delivery) : Unwrapping fresh delivery where
  frame := fun _ => parse_of_unwraps fresh
  bare := parse_of_not_unwraps fresh
  asDocumented_iff := by
    constructor
    · intro hdocumented hmisread
      exact hmisread.not_asDocumented fresh hdocumented
    · exact asDocumented_of_not_misread fresh

/-- A bare body that is an array of one text is taken for a frame. -/
theorem not_forall_asDocumented :
    ¬ ∀ (fresh : String) (delivery : Delivery),
      AsDocumented fresh delivery.data (parse fresh delivery) := by
  intro h
  have hwritten : (Document.array [.string (some "hello")]).Written
      (Text.pieces "[\"hello\"]".toUTF8) := by
    rw [← Document.parseBytes?_eq_some, Document.parseBytes?_of_decode? (Text.decode?_toUTF8 _)]
    rfl
  have hmisread : Misread "[\"hello\"]".toUTF8 := .array hwritten .bare
  exact hmisread.not_asDocumented "id-1" (h "id-1" ⟨"c", none, _⟩)

end MessageDispatch.Redis
