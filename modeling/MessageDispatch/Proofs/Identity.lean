import MessageDispatch.Protocol

/-! The message id and the correlation id of a parsed message. Each broker has places for the two
in its native messages, and what counts is the first place that is not empty. The message id of the
envelope is that value, or a fresh one. The correlation id is kept as well, with one exception:
SQS puts the id of the queue in after the correlation id, which it then takes along if the
attributes gave the message the same id. -/
namespace MessageDispatch

/-- The first of the values that is there and not empty. -/
def firstNonEmpty (places : List (Option String)) : Option String :=
  places.findSome? (·.filter (· ≠ ""))

/-! ## The places for the two ids -/

/-- The text of a header, if it has one. -/
def Amqp.Delivery.headerText? (d : Amqp.Delivery) (name : String) : Option String :=
  (d.properties.header? name).bind FieldValue.header?

/-- The text of the last header of this name. -/
def Kafka.Record.headerText? (r : Kafka.Record) (name : String) : Option String :=
  (r.headers.reverse.lookup name).map Text.lossy

/-- The header of a framed message. -/
def Redis.Delivery.headerText? (d : Redis.Delivery) (name : String) : Option String :=
  (Frame.decode? d.data).bind (·.headers.get? name)

namespace Broker

def idPlaces : (b : Broker) → b.protocol.Raw → List (Option String)
  | .amqp, (d : Amqp.Delivery) => [d.properties.messageId, d.headerText? HeaderName.messageId]
  | .kafka, (r : Kafka.Record) => [r.headerText? HeaderName.messageId, some r.position]
  | .nats, (d : Nats.Delivery) =>
    [d.headers.get? HeaderName.messageId, d.headers.get? Nats.idHeader]
  | .redis, (d : Redis.Delivery) => [d.headerText? HeaderName.messageId]
  | .sqs, (d : Sqs.Delivery) => [some d.messageId, d.attributes.get? HeaderName.messageId]

def correlationPlaces : (b : Broker) → b.protocol.Raw → List (Option String)
  | .amqp, (d : Amqp.Delivery) =>
    [d.properties.correlationId, d.headerText? HeaderName.correlationId]
  | .kafka, (r : Kafka.Record) => [r.headerText? HeaderName.correlationId]
  | .nats, (d : Nats.Delivery) => [d.headers.get? HeaderName.correlationId]
  | .redis, (d : Redis.Delivery) => [d.headerText? HeaderName.correlationId]
  | .sqs, (d : Sqs.Delivery) => [d.attributes.get? HeaderName.correlationId]

/-- The message id that a native message carries. -/
def carriedId? (b : Broker) (raw : b.protocol.Raw) : Option String :=
  firstNonEmpty (b.idPlaces raw)

/-- The correlation id that its sender gave it. -/
def carriedCorrelation? (b : Broker) (raw : b.protocol.Raw) : Option String :=
  firstNonEmpty (b.correlationPlaces raw)

end Broker

/-! ## The first value that is not empty -/

theorem orElse_eq_firstNonEmpty (first second : Option String) :
    Envelope.orElse first second = firstNonEmpty [first, second] := by
  simp only [Envelope.orElse, firstNonEmpty, List.findSome?]
  cases first.filter (· ≠ "") with
  | some s => rfl
  | none => cases second.filter (· ≠ "") <;> rfl

theorem nonEmpty?_eq_firstNonEmpty (h : Headers) (name : String) :
    h.nonEmpty? name = firstNonEmpty [h.get? name] := by
  simp only [Headers.nonEmpty?, firstNonEmpty, List.findSome?]
  cases (h.get? name).filter (· ≠ "") <;> rfl

theorem firstNonEmpty_filter (first second : Option String) :
    firstNonEmpty [first, second.filter (· ≠ "")] = firstNonEmpty [first, second] := by
  cases second with
  | none => rfl
  | some s => by_cases hs : s = "" <;> simp [firstNonEmpty, List.findSome?, Option.filter, hs]

theorem firstNonEmpty_cons_some {s : String} (h : s ≠ "") (rest : List (Option String)) :
    firstNonEmpty (some s :: rest) = some s := by
  simp [firstNonEmpty, Option.filter, h]

theorem firstNonEmpty_cons_empty (rest : List (Option String)) :
    firstNonEmpty (some "" :: rest) = firstNonEmpty rest := by
  simp [firstNonEmpty, Option.filter]

theorem firstNonEmpty_none : firstNonEmpty [none] = none := rfl

@[simp] theorem firstNonEmpty_concat_none (first : Option String) :
    firstNonEmpty [first, none] = firstNonEmpty [first] := by
  simp only [firstNonEmpty, List.findSome?]
  cases first.filter (· ≠ "") <;> rfl

/-! ## The envelope of a message with headers -/

section
variable (fresh : String) (body : ByteArray) (headers : Headers)
  (nativeId nativeReplyTo : Option String)

theorem messageId_ofHeaders :
    (Envelope.ofHeaders fresh body headers nativeId nativeReplyTo).messageId =
      (firstNonEmpty [headers.get? HeaderName.messageId, nativeId]).getD fresh := by
  simp [Envelope.ofHeaders, orElse_eq_firstNonEmpty]

theorem correlationId_ofHeaders :
    (Envelope.ofHeaders fresh body headers nativeId nativeReplyTo).correlationId =
      (firstNonEmpty [headers.get? HeaderName.correlationId]).getD
        ((firstNonEmpty [headers.get? HeaderName.messageId, nativeId]).getD fresh) := by
  simp [Envelope.ofHeaders, orElse_eq_firstNonEmpty, nonEmpty?_eq_firstNonEmpty]

end

/-! ## One broker after the other -/

namespace Amqp

theorem get?_headers (d : Delivery) (name : String) :
    ((d.properties.headers.map FieldTable.headers).getD .empty).get? name =
      d.headerText? name := by
  cases ht : d.properties.headers with
  | none => simp [Delivery.headerText?, Properties.header?, ht]
  | some t => simp [Delivery.headerText?, Properties.header?, ht, FieldTable.get?_headers]

theorem messageId_parse (fresh : String) (d : Delivery) :
    (parse fresh d).messageId =
      (firstNonEmpty [d.properties.messageId, d.headerText? HeaderName.messageId]).getD fresh := by
  simp only [parse, Envelope.ofMetadata_messageId, get?_headers, orElse_eq_firstNonEmpty]

theorem correlationId_parse (fresh : String) (d : Delivery) :
    (parse fresh d).correlationId =
      (firstNonEmpty [d.properties.correlationId, d.headerText? HeaderName.correlationId]).getD
        (parse fresh d).messageId := by
  rw [messageId_parse]
  simp only [parse, Envelope.ofMetadata_correlationId, get?_headers, orElse_eq_firstNonEmpty]

end Amqp

namespace Kafka

theorem lookup_map_snd {α β : Type} (f : α → β) (entries : List (String × α)) (name : String) :
    (entries.map fun e => (e.1, f e.2)).lookup name = (entries.lookup name).map f := by
  induction entries with
  | nil => rfl
  | cons e rest ih =>
    obtain ⟨n, v⟩ := e
    simp only [List.map_cons, List.lookup_cons]
    cases name == n <;> simp [ih]

theorem get?_headers (r : Record) (name : String) :
    (Headers.ofList (r.headers.map fun h => (h.1, Text.lossy h.2))).get? name =
      r.headerText? name := by
  rw [Headers.get?_ofList, ← List.map_reverse, lookup_map_snd]
  rfl

theorem messageId_parse (fresh : String) (r : Record) :
    (parse fresh r).messageId =
      (firstNonEmpty [r.headerText? HeaderName.messageId, some r.position]).getD fresh := by
  simp only [parse, messageId_ofHeaders, get?_headers]

theorem correlationId_parse (fresh : String) (r : Record) :
    (parse fresh r).correlationId =
      (firstNonEmpty [r.headerText? HeaderName.correlationId]).getD (parse fresh r).messageId := by
  rw [messageId_parse]
  simp only [parse, correlationId_ofHeaders, get?_headers]

end Kafka

namespace Nats

theorem messageId_parse (fresh : String) (d : Delivery) :
    (parse fresh d).messageId =
      (firstNonEmpty [d.headers.get? HeaderName.messageId, d.headers.get? idHeader]).getD
        fresh := by
  simp only [parse, messageId_ofHeaders, Headers.nonEmpty?, firstNonEmpty_filter]

theorem correlationId_parse (fresh : String) (d : Delivery) :
    (parse fresh d).correlationId =
      (firstNonEmpty [d.headers.get? HeaderName.correlationId]).getD
        (parse fresh d).messageId := by
  rw [messageId_parse]
  simp only [parse, correlationId_ofHeaders, Headers.nonEmpty?, firstNonEmpty_filter]

end Nats

namespace Redis

theorem messageId_parse (fresh : String) (d : Delivery) :
    (parse fresh d).messageId =
      (firstNonEmpty [d.headerText? HeaderName.messageId]).getD fresh := by
  cases hf : Frame.decode? d.data with
  | none => simp [parse, Delivery.headerText?, hf, Envelope.new, firstNonEmpty_none]
  | some f => simp [parse, Delivery.headerText?, hf, messageId_ofHeaders]

theorem correlationId_parse (fresh : String) (d : Delivery) :
    (parse fresh d).correlationId =
      (firstNonEmpty [d.headerText? HeaderName.correlationId]).getD
        (parse fresh d).messageId := by
  rw [messageId_parse]
  cases hf : Frame.decode? d.data with
  | none => simp [parse, Delivery.headerText?, hf, Envelope.new, firstNonEmpty_none]
  | some f => simp [parse, Delivery.headerText?, hf, correlationId_ofHeaders]

end Redis

namespace Sqs

/-- The id of the message before the queue's own id is put in. -/
def Delivery.attributeId (fresh : String) (d : Delivery) : String :=
  (firstNonEmpty [d.attributes.get? HeaderName.messageId]).getD fresh

theorem messageId_parse (fresh : String) (d : Delivery) :
    (parse fresh d).messageId =
      (firstNonEmpty [some d.messageId, d.attributes.get? HeaderName.messageId]).getD fresh := by
  by_cases hm : d.messageId = ""
  · simp [parse, hm, messageId_ofHeaders, firstNonEmpty_cons_empty]
  · simp [parse, hm, Envelope.withMessageId, firstNonEmpty_cons_some hm]

theorem correlationId_parse_of_carried (fresh : String) (d : Delivery) {c : String}
    (h : firstNonEmpty [d.attributes.get? HeaderName.correlationId] = some c) :
    (parse fresh d).correlationId =
      if d.messageId ≠ "" ∧ d.attributeId fresh = c then d.messageId else c := by
  by_cases hm : d.messageId = ""
  · simp [parse, hm, correlationId_ofHeaders, h]
  · have he : (c = d.attributeId fresh) = (d.attributeId fresh = c) := propext eq_comm
    simp only [parse, if_neg hm, Envelope.withMessageId, correlationId_ofHeaders,
      messageId_ofHeaders, firstNonEmpty_concat_none, h, Option.getD_some]
    -- the id before the queue's own is what the correlation id is compared with
    show (if c = d.attributeId fresh then _ else _) = _
    simp [hm, he]

end Sqs

/-! ## What an envelope is known by -/

namespace Broker

/-- A message that carries an id keeps it, and any other gets the fresh one. -/
theorem messageId_parse (b : Broker) (fresh : String) (raw : b.protocol.Raw) :
    (b.protocol.parse fresh raw).messageId = (b.carriedId? raw).getD fresh := by
  cases b with
  | amqp => exact Amqp.messageId_parse fresh raw
  | kafka => exact Kafka.messageId_parse fresh raw
  | nats => exact Nats.messageId_parse fresh raw
  | redis => exact Redis.messageId_parse fresh raw
  | sqs => exact Sqs.messageId_parse fresh raw

/-- Except with SQS, the correlation id is the carried one, or else the message id. -/
theorem correlationId_parse (b : Broker) (hb : b ≠ .sqs) (fresh : String)
    (raw : b.protocol.Raw) :
    (b.protocol.parse fresh raw).correlationId =
      (b.carriedCorrelation? raw).getD (b.protocol.parse fresh raw).messageId := by
  cases b with
  | amqp => exact Amqp.correlationId_parse fresh raw
  | kafka => exact Kafka.correlationId_parse fresh raw
  | nats => exact Nats.correlationId_parse fresh raw
  | redis => exact Redis.correlationId_parse fresh raw
  | sqs => exact absurd rfl hb

/-- The id of the queue takes the place of the correlation id: there is such an id, and the message
had the same id as its correlation id before. -/
def Displaces : (b : Broker) → (fresh : String) → b.protocol.Raw → (correlation : String) → Prop
  | .sqs, fresh, (d : Sqs.Delivery), correlation =>
    d.messageId ≠ "" ∧ d.messageId ≠ correlation ∧ d.attributeId fresh = correlation
  | _, _, _, _ => False

theorem not_displaces {b : Broker} (hb : b ≠ .sqs) (fresh : String) (raw : b.protocol.Raw)
    (c : String) : ¬ b.Displaces fresh raw c := by
  cases b with
  | sqs => exact absurd rfl hb
  | _ => exact id

/-- A correlation id that the sender gave a message is the one of its envelope, whatever message ids
there are, unless the id of the queue takes its place. -/
theorem correlationId_parse_iff (b : Broker) (fresh : String) (raw : b.protocol.Raw) {c : String}
    (h : b.carriedCorrelation? raw = some c) :
    (b.protocol.parse fresh raw).correlationId = c ↔ ¬ b.Displaces fresh raw c := by
  by_cases hb : b = .sqs
  · subst hb
    have hc := Sqs.correlationId_parse_of_carried fresh raw h
    show (Sqs.parse fresh raw).correlationId = c ↔ ¬ Displaces .sqs fresh raw c
    rw [hc]
    split
    · rename_i hd
      simp [Displaces, hd]
    · rename_i hd
      exact iff_of_true rfl fun hd' => hd ⟨hd'.1, hd'.2.2⟩
  · have hc := correlationId_parse b hb fresh raw
    rw [h] at hc
    exact iff_of_true hc (not_displaces hb fresh raw c)

/-- The message of a queue under its own id, with the ids that its sender gave it. -/
def queued (messageId correlationId : String) : Sqs.Delivery where
  messageId := "sqs-1"
  receiptHandle := "r-1"
  queue := "jobs"
  body := "work".toUTF8
  attributes := .ofList
    [(HeaderName.messageId, messageId), (HeaderName.correlationId, correlationId)]

theorem correlationId_parse_queued :
    (Sqs.parse "fresh" (queued "m-1" "c-9")).correlationId = "c-9" :=
  (correlationId_parse_iff .sqs "fresh" (queued "m-1" "c-9") (by decide)).2
    fun hd => absurd hd.2.2 (by decide)

/-- What a publisher sends by default: a message whose correlation id is its message id. -/
theorem not_forall_correlationId_parse :
    ¬ ∀ (b : Broker) (fresh : String) (raw : b.protocol.Raw) (c : String),
      b.carriedCorrelation? raw = some c →
        (b.protocol.parse fresh raw).correlationId = c := by
  intro h
  have hc := h .sqs "fresh" (queued "m-1" "m-1") "m-1" (by decide)
  have hparse : (Sqs.parse "fresh" (queued "m-1" "m-1")).correlationId = "sqs-1" := by decide
  exact absurd (hparse.symm.trans hc) (by decide)

end Broker

end MessageDispatch
