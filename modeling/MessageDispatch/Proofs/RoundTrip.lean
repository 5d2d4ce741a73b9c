import MessageDispatch.Proofs.Framing
import MessageDispatch.Proofs.JsonText
import MessageDispatch.Protocol

/-! A message that is built for a broker and parsed again. The metadata of the message travels as
properties or as headers over those of its payload, and comes back from wherever it was put. -/
namespace MessageDispatch

/-! ## What is sent -/

/-- The headers that carry metadata. -/
def HeaderName.wellKnown : List String := [contentType, replyTo, messageId, correlationId]

namespace Message

variable {Route : Type} (m : Message Route)

/-- The metadata of the message itself, by the header that carries it. -/
def metadata? (name : String) : Option String :=
  if name = HeaderName.contentType then m.payload.contentType
  else if name = HeaderName.replyTo then m.replyTo
  else if name = HeaderName.messageId then m.messageId
  else if name = HeaderName.correlationId then m.correlationId
  else none

/-- The message has both ids, and nothing in it is empty that could be absent. -/
structure Complete : Prop where
  messageId : ∃ id, m.messageId = some id ∧ id ≠ ""
  correlationId : ∃ id, m.correlationId = some id ∧ id ≠ ""
  contentType : m.payload.contentType ≠ some ""
  replyTo : m.replyTo ≠ some ""

/-- What an envelope has of a message. `carried` says whether its headers carry the metadata. -/
structure Restored (carried : Prop) (e : Envelope) : Prop where
  body : e.body = m.payload.body
  messageId : some e.messageId = m.messageId
  correlationId : some e.correlationId = m.correlationId
  contentType : e.contentType =
    m.payload.contentType.or (m.payload.headers.nonEmpty? HeaderName.contentType)
  replyTo : e.replyTo = (m.replyTo.or (m.payload.headers.get? HeaderName.replyTo)).getD ""
  /-- The headers of the payload arrive, but for those that give way to metadata. -/
  kept : ∀ name value, m.payload.headers.get? name = some value →
    (carried → m.metadata? name = none) → e.headers.get? name = some value
  overridden : carried → ∀ name value, m.metadata? name = some value →
    e.headers.get? name = some value
  nothing_else : ∀ name, e.headers.get? name ≠ none →
    m.payload.headers.get? name ≠ none ∨ carried ∧ name ∈ HeaderName.wellKnown

theorem mem_wellKnown {name : String} (h : m.metadata? name ≠ none) :
    name ∈ HeaderName.wellKnown := by
  unfold metadata? at h
  iterate 4
    split at h
    · simp [HeaderName.wellKnown, *]
  exact absurd rfl h

@[simp] theorem metadata?_contentType :
    m.metadata? HeaderName.contentType = m.payload.contentType := rfl

@[simp] theorem metadata?_replyTo : m.metadata? HeaderName.replyTo = m.replyTo := rfl

@[simp] theorem metadata?_messageId : m.metadata? HeaderName.messageId = m.messageId := rfl

@[simp] theorem metadata?_correlationId :
    m.metadata? HeaderName.correlationId = m.correlationId := rfl

/-- The metadata of the message stands before the headers of its payload. -/
theorem get?_outgoingHeaders (name : String) :
    m.outgoingHeaders.get? name = (m.metadata? name).or (m.payload.headers.get? name) := by
  simp only [outgoingHeaders, Headers.get?_insert?, metadata?]
  by_cases hcorrelation : name = HeaderName.correlationId
  · subst hcorrelation
    rfl
  by_cases hid : name = HeaderName.messageId
  · subst hid
    rfl
  by_cases hreply : name = HeaderName.replyTo
  · subst hreply
    rfl
  by_cases htype : name = HeaderName.contentType
  · subst htype
    rfl
  rw [if_neg (Ne.symm hcorrelation), if_neg (Ne.symm hid), if_neg (Ne.symm hreply),
    if_neg (Ne.symm htype), if_neg htype, if_neg hreply, if_neg hid, if_neg hcorrelation,
    Option.none_or]

end Message

/-! ## Choosing among places -/

theorem orElse_eq_or {first : Option String} (second : Option String) (h : first ≠ some "") :
    Envelope.orElse first second = first.or (second.filter (· ≠ "")) := by
  cases first with
  | none => rfl
  | some s =>
    have hs : s ≠ "" := fun heq => h (by rw [heq])
    simp [Envelope.orElse, Option.filter, hs]

theorem filter_or {first : Option String} (second : Option String) (h : first ≠ some "") :
    (first.or second).filter (· ≠ "") = first.or (second.filter (· ≠ "")) := by
  cases first with
  | none => rfl
  | some s =>
    have hs : s ≠ "" := fun heq => h (by rw [heq])
    simp [Option.filter, hs]

/-- An empty text is as good as none. -/
theorem getD_filter (text : Option String) : (text.filter (· ≠ "")).getD "" = text.getD "" := by
  cases text with
  | none => rfl
  | some s => by_cases hs : s = "" <;> simp [Option.filter, hs]

/-! ## Metadata in headers -/

section
variable {Route : Type} {m : Message Route} (hm : m.Complete)
include hm

/-- Whatever else a broker delivers natively, an envelope has what was sent in headers. -/
theorem restored_ofHeaders (fresh : String) (nativeId nativeReplyTo : Option String)
    (hreply : nativeReplyTo = none ∨ nativeReplyTo = m.replyTo) :
    m.Restored True
      (.ofHeaders fresh m.payload.body m.outgoingHeaders nativeId nativeReplyTo) := by
  obtain ⟨id, hid, hid_ne⟩ := hm.messageId
  obtain ⟨correlation, hcorrelation, hcorrelation_ne⟩ := hm.correlationId
  have hget_id : m.outgoingHeaders.get? HeaderName.messageId = some id := by
    rw [m.get?_outgoingHeaders, m.metadata?_messageId, hid, Option.some_or]
  have hget_correlation : m.outgoingHeaders.get? HeaderName.correlationId = some correlation := by
    rw [m.get?_outgoingHeaders, m.metadata?_correlationId, hcorrelation, Option.some_or]
  have hget_type := m.get?_outgoingHeaders HeaderName.contentType
  have hget_reply := m.get?_outgoingHeaders HeaderName.replyTo
  rw [Envelope.ofHeaders, Envelope.ofMetadata_eq]
  refine {
    body := rfl
    messageId := ?_
    correlationId := ?_
    contentType := ?_
    replyTo := ?_
    kept := ?_
    overridden := ?_
    nothing_else := ?_ }
  · rw [hget_id, orElse_eq_or _ (by simpa using hid_ne), hid]
    rfl
  · simp only [Headers.nonEmpty?, hget_correlation]
    rw [Option.filter_some, if_pos (by simpa using hcorrelation_ne), hcorrelation]
    rfl
  · simp only [Headers.nonEmpty?, hget_type, m.metadata?_contentType]
    exact filter_or _ hm.contentType
  · simp only [hget_reply, m.metadata?_replyTo]
    cases hto : m.replyTo with
    | none =>
      have hnone : nativeReplyTo = none := hreply.elim (fun h => h) (·.trans hto)
      rw [hnone, Envelope.orElse_none, getD_filter]
    | some destination =>
      have hdestination : some destination ≠ some "" := hto ▸ hm.replyTo
      rw [Option.some_or, orElse_eq_or _ hdestination, Option.some_or]
  · intro name value hvalue hnone
    show m.outgoingHeaders.get? name = some value
    rw [m.get?_outgoingHeaders, hnone trivial, Option.none_or, hvalue]
  · intro _ name value hvalue
    show m.outgoingHeaders.get? name = some value
    rw [m.get?_outgoingHeaders, hvalue, Option.some_or]
  · intro name (hname : m.outgoingHeaders.get? name ≠ none)
    rw [m.get?_outgoingHeaders] at hname
    cases hown : m.metadata? name with
    | none => exact .inl (by simpa [hown] using hname)
    | some value => exact .inr ⟨trivial, m.mem_wellKnown (by simp [hown])⟩

end

/-! ## One broker after the other -/

theorem Amqp.restored (fresh : String) (ids : FreshIds) {m : Message Route} (hm : m.Complete) :
    m.Restored False (parse fresh (build ids m)) := by
  obtain ⟨id, hid, hid_ne⟩ := hm.messageId
  obtain ⟨correlation, hcorrelation, hcorrelation_ne⟩ := hm.correlationId
  have hheaders : ((build ids m).properties.headers.map FieldTable.headers).getD .empty =
      m.payload.headers :=
    FieldTable.headers_ofHeaders m.payload.headers
  rw [parse, hheaders, Envelope.ofMetadata_eq]
  refine {
    body := rfl
    messageId := ?_
    correlationId := ?_
    contentType := orElse_eq_or _ hm.contentType
    replyTo := ?_
    kept := fun _ _ hvalue _ => hvalue
    overridden := False.elim
    nothing_else := fun _ hname => .inl hname }
  · simp only [build, properties, hid]
    rw [orElse_eq_or _ (by simpa using hid_ne)]
    rfl
  · simp only [build, properties, hcorrelation]
    rw [orElse_eq_or _ (by simpa using hcorrelation_ne)]
    rfl
  · simp only [build, properties]
    cases hto : m.replyTo with
    | none => exact getD_filter _
    | some destination =>
      have hdestination : some destination ≠ some "" := hto ▸ hm.replyTo
      rw [orElse_eq_or _ hdestination, Option.some_or]
      rfl

theorem Kafka.parse_build (fresh : String) (ids : FreshIds) (m : Message Route) :
    parse fresh (build ids m) =
      .ofHeaders fresh m.payload.body m.outgoingHeaders (some (build ids m).position) none := by
  have hheaders : Headers.ofList ((build ids m).headers.map fun h => (h.1, Text.lossy h.2)) =
      m.outgoingHeaders := by
    have htext : (fun h : String × ByteArray => (h.1, Text.lossy h.2)) ∘
        (fun h : String × String => (h.1, h.2.toUTF8)) = id :=
      funext fun h => congrArg (h.1, ·) (Text.lossy_toUTF8 h.2)
    rw [build, List.map_map, htext, List.map_id, Headers.ofList_entries]
  rw [parse, hheaders]
  rfl

theorem Kafka.restored (fresh : String) (ids : FreshIds) {m : Message Route} (hm : m.Complete) :
    m.Restored True (parse fresh (build ids m)) := by
  rw [parse_build]
  exact restored_ofHeaders hm fresh _ none (.inl rfl)

theorem Nats.restored (fresh : String) (ids : FreshIds) {m : Message Route} (hm : m.Complete) :
    m.Restored True (parse fresh (build ids m)) :=
  restored_ofHeaders hm fresh _ m.replyTo (.inr rfl)

namespace Redis

/-- Headers as the members of an object. -/
theorem readable_texts (entries : List (String × String)) :
    Json.ReadableMembers (entries.map fun e => (e.1, .string e.2)) := by
  induction entries with
  | nil => trivial
  | cons e rest ih => exact ⟨trivial, ih⟩

/-- The document of headers is an object of texts. -/
theorem ofMembers_texts (entries : List (String × String)) :
    Document.ofMembers (entries.map fun e => (e.1, .string e.2)) =
      entries.map fun e => (some e.1, .string (some e.2)) := by
  induction entries with
  | nil => rfl
  | cons e rest ih =>
    rw [List.map_cons, Document.ofMembers, ih]
    rfl

/-- The text of a frame is that frame. -/
theorem Frame.decode?_encode (f : Frame) : decode? f.encode = some f := by
  have hreadable : f.toJson.Readable := by
    simp only [toJson, Json.Readable, Json.ReadableMembers, and_true, true_and]
    exact readable_texts f.headers.entries
  have hheaders : headers? (Document.ofJson
      (.object (f.headers.entries.map fun e => (e.1, .string e.2)))) = some f.headers := by
    rw [Document.ofJson, ofMembers_texts]
    exact headers?_eq_some.mpr ⟨f.headers.entries, rfl, f.headers.ofList_entries.symm⟩
  have hframe : ofDocument? (Document.ofJson f.toJson) = some f := by
    have hjoin := congrArg (Option.map (Frame.mk f.data)) hheaders
    exact hjoin
  rw [decode?, encode, Document.parseBytes?_of_decode? (Text.decode?_toUTF8 _),
    Document.parse?_render _ hreadable, Option.bind_some, hframe]

theorem parse_build (fresh : String) (ids : FreshIds) (m : Message Route) :
    parse fresh (build ids m) =
      .ofHeaders fresh (Text.lossy m.payload.body).toUTF8 m.outgoingHeaders none none := by
  rw [parse, build, Frame.decode?_encode]
  rfl

/-- A body that is text is framed as it is. -/
theorem toUTF8_lossy {body : ByteArray} (h : (Text.decode? body).isSome) :
    (Text.lossy body).toUTF8 = body := by
  obtain ⟨text, htext⟩ := Option.isSome_iff_exists.mp h
  rw [Text.lossy_of_decode? htext, Text.toUTF8_of_decode? htext]

theorem restored (fresh : String) (ids : FreshIds) {m : Message Route} (hm : m.Complete)
    (hbody : (Text.decode? m.payload.body).isSome) :
    m.Restored True (parse fresh (build ids m)) := by
  rw [parse_build, toUTF8_lossy hbody]
  exact restored_ofHeaders hm fresh none none (.inl rfl)

end Redis

theorem Sqs.restored (fresh : String) (ids : FreshIds) {m : Message Route} (hm : m.Complete) :
    m.Restored True (parse fresh (build ids m)) := by
  obtain ⟨id, hid, hid_ne⟩ := hm.messageId
  have he := restored_ofHeaders hm fresh none none (.inl rfl)
  have hqueue : (build ids m).messageId = id := by
    simp [build, hid, Option.filter, hid_ne]
  have hsame := Option.some.inj (he.messageId.trans hid)
  -- the id of the queue is the one that was sent
  have hparse : parse fresh (build ids m) =
      .ofHeaders fresh m.payload.body m.outgoingHeaders none none := by
    rw [parse, hqueue, if_neg hid_ne, ← hsame]
    exact Envelope.withMessageId_self _
  rw [hparse]
  exact he

/-! ## Any broker -/

theorem Message.Restored.of_iff {Route : Type} {m : Message Route} {carried carried' : Prop}
    {e : Envelope} (h : m.Restored carried e) (hiff : carried ↔ carried') :
    m.Restored carried' e :=
  propext hiff ▸ h

/-- A message that has its ids comes back from any broker as it was sent. -/
theorem Broker.restored_parse_build (b : Broker) (fresh : String) (ids : FreshIds)
    (m : Message b.protocol.Route) (hm : m.Complete)
    (hbody : b = .redis → (Text.decode? m.payload.body).isSome) :
    m.Restored (b ≠ .amqp) (b.protocol.parse fresh (b.protocol.build ids m)) := by
  cases b with
  | amqp => exact (Amqp.restored fresh ids hm).of_iff (by simp)
  | kafka => exact (Kafka.restored fresh ids hm).of_iff (by simp)
  | nats => exact (Nats.restored fresh ids hm).of_iff (by simp)
  | redis =>
    -- stated of any raw message, so that no text is parsed to see it
    have hparse : ∀ raw, Broker.redis.protocol.parse fresh raw = Redis.parse fresh raw :=
      fun _ => rfl
    rw [hparse]
    exact (Redis.restored fresh ids hm (hbody rfl)).of_iff (by simp)
  | sqs => exact (Sqs.restored fresh ids hm).of_iff (by simp)

/-- A message whose content type is only among the headers of its payload. -/
def reminder : Message Broker.redis.protocol.Route where
  payload :=
    ⟨"work".toUTF8, none, .ofList [(HeaderName.contentType, "text/csv"), ("day", "Monday")]⟩
  route := (⟨"jobs"⟩ : Redis.Route)
  replyTo := some "answers"
  correlationId := some "c-1"
  messageId := some "m-1"
  timestamp := none

theorem restored_reminder :
    reminder.Restored (Broker.redis ≠ .amqp)
      (Broker.redis.protocol.parse "fresh"
        (Broker.redis.protocol.build ⟨"id-1", "receipt-1"⟩ reminder)) := by
  have hcomplete : reminder.Complete :=
    ⟨⟨"m-1", rfl, by decide⟩, ⟨"c-1", rfl, by decide⟩, nofun, by simp [reminder]⟩
  have hbody : Text.decode? reminder.payload.body = some "work" := Text.decode?_toUTF8 "work"
  exact Broker.restored_parse_build .redis "fresh" ⟨"id-1", "receipt-1"⟩ reminder hcomplete
    fun _ => by rw [hbody]; rfl

end MessageDispatch
