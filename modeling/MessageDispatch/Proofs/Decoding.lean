import MessageDispatch.InProcess
import MessageDispatch.Live
import MessageDispatch.Proofs.RoundTrip
import MessageDispatch.Proofs.Runs

/-! One payload read in two places: in process as it is, and at the other end of a broker as the
body of the message that was built for it. Both read the same bytes, so they differ exactly when
the content type that counts there is not the one that the payload names. -/
namespace MessageDispatch

/-! ## Ways to read a body -/

namespace ContentType

/-- What a content type says about the bytes of a body. -/
inductive Reading where
  | json
  | text
  | bytes
deriving DecidableEq

def reading : Option String → Reading
  | none => .bytes
  | some type => if isJson type then .json else if isText type then .text else .bytes

namespace Reading

def read (body : ByteArray) : Reading → Except DecodeError Decoded
  | .json => Decoded.readJson body
  | .text => Decoded.readText body
  | .bytes => .ok (.bytes body)

/-- The reading that a result comes from. -/
def ofResult : Except DecodeError Decoded → Reading
  | .ok (.json _) | .error .invalidJson => .json
  | .ok (.text _) | .error .invalidText => .text
  | _ => .bytes

theorem ofResult_read (body : ByteArray) (r : Reading) : ofResult (r.read body) = r := by
  cases r with
  | json =>
    show ofResult (Decoded.readJson body) = _
    unfold Decoded.readJson
    split <;> rfl
  | text =>
    show ofResult (Decoded.readText body) = _
    unfold Decoded.readText
    split <;> rfl
  | bytes => rfl

/-- Different readings never agree, also where they fail. -/
theorem read_inj {body : ByteArray} {r r' : Reading} (h : r.read body = r'.read body) : r = r' := by
  rw [← ofResult_read body r, h, ofResult_read]

end Reading

/-- An empty content type is as good as none. -/
theorem reading_filter (type : Option String) : reading (type.filter (· ≠ "")) = reading type := by
  cases type with
  | none => rfl
  | some t =>
    by_cases ht : t = ""
    · subst ht
      decide
    · rw [Option.filter_some, if_pos (by simpa using ht)]

end ContentType

open ContentType (reading)

namespace Decoded

variable (body : ByteArray) (type type' : Option String)

theorem ofBody_eq :
    ofBody body type = if body.size = 0 then .ok .empty else (reading type).read body := by
  unfold ofBody
  split
  · rfl
  · cases type with
    | none => rfl
    | some t =>
      simp only [reading]
      split
      · rfl
      · split <;> rfl

/-- Two content types read a body alike if there is nothing to read, or if they say the same. -/
theorem ofBody_eq_iff :
    ofBody body type = ofBody body type' ↔ body.size = 0 ∨ reading type = reading type' := by
  rw [ofBody_eq, ofBody_eq]
  by_cases hempty : body.size = 0
  · simp [hempty]
  · rw [if_neg hempty, if_neg hempty, or_iff_right hempty]
    exact ⟨ContentType.Reading.read_inj, fun h => by rw [h]⟩

end Decoded

/-! ## What arrives -/

/-- An envelope that has a body, read in a certain way. -/
structure Envelope.Reads (e : Envelope) (body : ByteArray) (r : ContentType.Reading) : Prop where
  body : e.body = body
  reading : reading e.contentType = r

namespace Message

variable {Route : Type} (m : Message Route)

/-- How headers have the body read: as the payload says, or else as its headers say. -/
def carriedReading : ContentType.Reading :=
  reading (m.payload.contentType.or (m.payload.headers.get? HeaderName.contentType))

theorem reads_ofHeaders (fresh : String) (body : ByteArray)
    (nativeId nativeReplyTo : Option String) :
    (Envelope.ofHeaders fresh body m.outgoingHeaders nativeId nativeReplyTo).Reads body
      m.carriedReading := by
  rw [Envelope.ofHeaders, Envelope.ofMetadata_eq]
  refine ⟨rfl, ?_⟩
  simp only [Headers.nonEmpty?, m.get?_outgoingHeaders, m.metadata?_contentType]
  exact ContentType.reading_filter _

end Message

theorem ContentType.reading_orElse (first second : Option String) :
    reading (Envelope.orElse first second) =
      if first = none ∨ first = some "" then reading second else reading first := by
  cases first with
  | none => exact reading_filter second
  | some t =>
    by_cases ht : t = ""
    · subst ht
      exact reading_filter second
    · simp [Envelope.orElse, Option.filter, ht]

theorem Amqp.reads_parse_build (fresh : String) (ids : FreshIds) (m : Message Route) :
    (parse fresh (build ids m)).Reads m.payload.body
      (if m.payload.contentType = none ∨ m.payload.contentType = some "" then
        reading (m.payload.headers.get? HeaderName.contentType)
      else reading m.payload.contentType) := by
  have hheaders : ((build ids m).properties.headers.map FieldTable.headers).getD .empty =
      m.payload.headers :=
    FieldTable.headers_ofHeaders m.payload.headers
  rw [parse, hheaders, Envelope.ofMetadata_eq]
  exact ⟨rfl, ContentType.reading_orElse ..⟩

theorem Kafka.reads_parse_build (fresh : String) (ids : FreshIds) (m : Message Route) :
    (parse fresh (build ids m)).Reads m.payload.body m.carriedReading := by
  rw [parse_build]
  exact m.reads_ofHeaders ..

theorem Redis.reads_parse_build (fresh : String) (ids : FreshIds) (m : Message Route) :
    (parse fresh (build ids m)).Reads (Text.lossy m.payload.body).toUTF8 m.carriedReading := by
  rw [parse_build]
  exact m.reads_ofHeaders ..

theorem Sqs.reads_parse_build (fresh : String) (ids : FreshIds) (m : Message Route) :
    (parse fresh (build ids m)).Reads m.payload.body m.carriedReading := by
  have he := m.reads_ofHeaders fresh m.payload.body none none
  unfold parse
  dsimp only
  split
  · exact he
  · exact ⟨he.body, he.reading⟩

namespace Broker

variable (b : Broker) (fresh : String) (ids : FreshIds) (m : Message b.protocol.Route)

/-- Does the broker take the content type of a payload from its headers? -/
def Defers (p : Payload) : Prop :=
  p.contentType = none ∨ b = .amqp ∧ p.contentType = some ""

instance (p : Payload) : Decidable (b.Defers p) :=
  inferInstanceAs (Decidable (p.contentType = none ∨ b = .amqp ∧ p.contentType = some ""))

/-- How a payload is read at the other end of a broker. -/
def arriving (p : Payload) : ContentType.Reading :=
  if b.Defers p then reading (p.headers.get? HeaderName.contentType) else reading p.contentType

/-- The bytes of a body that arrives. -/
def arrivingBody (p : Payload) : ByteArray :=
  if b = .redis then (Text.lossy p.body).toUTF8 else p.body

theorem carriedReading_eq {Route : Type} (m : Message Route) (hb : b ≠ .amqp) :
    m.carriedReading = b.arriving m.payload := by
  cases htype : m.payload.contentType <;>
    simp [Message.carriedReading, arriving, Defers, htype, hb]

/-- What is read of a message is that of its payload, whatever else it carries. -/
theorem reads_parse_build :
    (b.protocol.parse fresh (b.protocol.build ids m)).Reads (b.arrivingBody m.payload)
      (b.arriving m.payload) := by
  cases b with
  | amqp =>
    have hreads := Amqp.reads_parse_build fresh ids m
    refine ⟨hreads.body, hreads.reading.trans (ite_congr ?_ (fun _ => rfl) fun _ => rfl)⟩
    simp [Defers]
  | kafka =>
    rw [← carriedReading_eq .kafka m nofun]
    exact Kafka.reads_parse_build fresh ids m
  | nats =>
    rw [← carriedReading_eq .nats m nofun]
    exact m.reads_ofHeaders ..
  | redis =>
    rw [← carriedReading_eq .redis m nofun]
    -- stated of any raw message, so that no text is parsed to see it
    have hparse : ∀ raw, Broker.redis.protocol.parse fresh raw = Redis.parse fresh raw :=
      fun _ => rfl
    rw [hparse]
    exact Redis.reads_parse_build fresh ids m
  | sqs =>
    rw [← carriedReading_eq .sqs m nofun]
    exact Sqs.reads_parse_build ..

theorem arrivingBody_eq {p : Payload} (hbody : (Text.decode? p.body).isSome) :
    b.arrivingBody p = p.body := by
  rw [arrivingBody, Redis.toUTF8_lossy hbody, ite_self]

end Broker

/-! ## In process and at the other end -/

namespace Processing

variable {P : Protocol} {κ : Type}

/-- The replies that a run hands over. -/
def handedOver {ρ : Type} (t : List (Event (Processing ρ κ))) : List Decoded :=
  t.filterMap fun
    | ⟨.resolve _ reply, _⟩ => some reply
    | _ => none

/-- What a reply inbox does with a message that is offered to its call. -/
theorem offer_replyCall (subscription : String) (shortCircuit : Bool) (i : Nat) {e : Envelope}
    (hprocessed : e.processed = false) :
    offer (κ := κ) subscription shortCircuit [Live.replyCall (P := P)] i e none =
      match Decoded.ofBody e.body e.contentType with
      | .error err => .done (e, .error (.ofDecode err))
      | .ok reply =>
        .call (.recordBody i reply) fun _ => .call (.resolve e.correlationId reply) fun _ =>
          .done ((e.withDecoded reply).markProcessed, .ok (some ⟨none, i, []⟩)) := by
  unfold offer
  show (Program.done (Decoded.ofBody e.body e.contentType)).bind _ = _
  -- the decoder and the filter of the inbox ask for nothing
  cases Decoded.ofBody e.body e.contentType with
  | error err => rfl
  | ok reply =>
    rw [Program.bind_done]
    show (Program.done !(e.withDecoded reply).processed).bind _ = _
    rw [Program.bind_done, Envelope.withDecoded_processed, hprocessed]
    refine congrArg (Program.call _) (funext fun _ => ?_)
    refine congrArg (Program.call _) (funext fun _ => ?_)
    show (if shortCircuit then _ else _) = _
    split <;> rfl

variable {subscription : String} {shortCircuit : Bool} {e : Envelope}

/-- The inbox hands over what it reads, and nothing if it cannot read the message. -/
theorem handedOver_replyCall (hprocessed : e.processed = false)
    {t : List (Event (Processing P.Route κ))} {out : ConsumeResult P.Route}
    (h : Runs (offer subscription shortCircuit [Live.replyCall] 0 e none) t out) (d : Decoded) :
    d ∈ handedOver t ↔ Decoded.ofBody e.body e.contentType = .ok d := by
  rw [offer_replyCall _ _ _ hprocessed] at h
  cases hread : Decoded.ofBody e.body e.contentType with
  | error err =>
    rw [hread] at h
    obtain ⟨rfl, -⟩ := runs_done_iff.mp h
    simp [handedOver]
  | ok reply =>
    simp only [hread] at h
    obtain ⟨recorded, u, rfl, hrecorded⟩ := runs_call_iff.mp h
    obtain ⟨found, u, rfl, hresolved⟩ := runs_call_iff.mp hrecorded
    obtain ⟨rfl, -⟩ := runs_done_iff.mp hresolved
    simp [handedOver, eq_comm]

theorem exists_runs_replyCall (hprocessed : e.processed = false) :
    ∃ (t : List (Event (Processing P.Route κ))) (out : ConsumeResult P.Route),
      Runs (offer subscription shortCircuit [Live.replyCall] 0 e none) t out := by
  rw [offer_replyCall _ _ _ hprocessed]
  cases Decoded.ofBody e.body e.contentType with
  | error err => exact ⟨_, _, .done _⟩
  | ok reply =>
    have hresolve : Runs (.call (.resolve e.correlationId reply) fun _ =>
        .done ((e.withDecoded reply).markProcessed, .ok (some ⟨none, 0, []⟩)) :
          Program (Processing P.Route κ) (ConsumeResult P.Route))
        [⟨.resolve e.correlationId reply, true⟩] _ := .call (.done _)
    exact ⟨_, _, runs_call_iff.mpr ⟨(), _, rfl, hresolve⟩⟩

end Processing

/-- What a request comes to in process that is replied to with a payload. -/
theorem InProcess.replyOf_eq_iff (options : RequestOptions) (p : Payload) (d : Decoded) :
    replyOf options (some p) = .ok (some d) ↔ p.decode = .ok d := by
  rw [replyOf]
  cases p.decode <;> simp

namespace Broker

variable (b : Broker) (fresh : String) (ids : FreshIds) (m : Message b.protocol.Route)

/-- A payload is decoded as the default decoder decodes the inbound message with that payload. -/
def DecodesAlike : Prop :=
  ∀ κ : Type, (Decoder.byContentType : Decoder κ)
    (b.protocol.parse fresh (b.protocol.build ids m)) = .done m.payload.decode

/-- A reply with that payload is handed over by a reply inbox as a request in process returns
it. -/
def RepliesAlike : Prop :=
  ∀ (κ : Type) (subscription : String) (shortCircuit : Bool) (options : RequestOptions)
    (t : List (Event (Processing b.protocol.Route κ)))
    (out : Processing.ConsumeResult b.protocol.Route),
    Runs (Processing.offer subscription shortCircuit [Live.replyCall] 0
      (b.protocol.parse fresh (b.protocol.build ids m)) none) t out →
    ∀ d, d ∈ Processing.handedOver t ↔ InProcess.replyOf options (some m.payload) = .ok (some d)

/-- A header names another way to read a payload that does not name one itself. -/
def Retypes (p : Payload) : Prop :=
  p.body.size ≠ 0 ∧ b.Defers p ∧ reading (p.headers.get? HeaderName.contentType) ≠ .bytes

theorem Defers.reading {b : Broker} {p : Payload} (h : b.Defers p) :
    reading p.contentType = .bytes := by
  obtain hnone | ⟨-, hempty⟩ := h
  · rw [hnone]
    rfl
  · rw [hempty]
    rfl

/-- Such a payload is left as it is in process. -/
theorem Retypes.decode {b : Broker} {p : Payload} (h : b.Retypes p) :
    p.decode = .ok (.bytes p.body) := by
  rw [Payload.decode, Decoded.ofBody_eq, if_neg h.1, h.2.1.reading]
  rfl

variable {m} (hbody : (Text.decode? m.payload.body).isSome)
include hbody

theorem ofBody_parse_build_iff :
    Decoded.ofBody (b.protocol.parse fresh (b.protocol.build ids m)).body
        (b.protocol.parse fresh (b.protocol.build ids m)).contentType = m.payload.decode ↔
      ¬b.Retypes m.payload := by
  have hreads := b.reads_parse_build fresh ids m
  rw [hreads.body, b.arrivingBody_eq hbody, Payload.decode, Decoded.ofBody_eq_iff, hreads.reading,
    Retypes, arriving]
  by_cases hdefers : b.Defers m.payload
  · simp [hdefers, hdefers.reading, Classical.or_iff_not_imp_left]
  · simp [hdefers]

/-- In process a payload is decoded, and a request answered, as over a broker, unless the payload
leaves it to its headers how it is to be read. -/
theorem decodesAlike_iff :
    (b.DecodesAlike fresh ids m ↔ ¬b.Retypes m.payload) ∧
      (b.RepliesAlike fresh ids m ↔ ¬b.Retypes m.payload) := by
  have hprocessed := b.processed_parse fresh (b.protocol.build ids m)
  have hread := b.ofBody_parse_build_iff fresh ids hbody
  refine ⟨⟨fun h => ?_, fun h κ => ?_⟩, fun h hretypes => ?_, fun h => ?_⟩
  · exact hread.mp (Program.done.inj (h Unit))
  · exact congrArg Program.done (hread.mpr h)
  · obtain ⟨t, out, hrun⟩ := Processing.exists_runs_replyCall (κ := Unit) hprocessed
    have hreply := h Unit "" true ⟨0, true⟩ t out hrun (.bytes m.payload.body)
    rw [Processing.handedOver_replyCall hprocessed hrun, InProcess.replyOf_eq_iff] at hreply
    exact hread.mp ((hreply.mpr hretypes.decode).trans hretypes.decode.symm) hretypes
  · intro κ subscription shortCircuit options t out hrun d
    rw [Processing.handedOver_replyCall hprocessed hrun, InProcess.replyOf_eq_iff, hread.mpr h]

/-! ## A reply that names its type in a header -/

omit hbody

/-- The text of an empty JSON object, with that said in a header only. -/
def labelled : Payload :=
  (Payload.bytes "\x7b\x7d".toUTF8).withHeader HeaderName.contentType ContentType.json

theorem retypes_labelled (b : Broker) : b.Retypes labelled := by
  refine ⟨by decide, .inl rfl, ?_⟩
  rw [labelled, Payload.withHeader, Headers.get?_insert_self]
  decide

theorem decodesAlike_pong :
    let m : Message Broker.amqp.protocol.Route := .new (Amqp.Route.toQueue "answers") (.text "pong")
    (Text.decode? m.payload.body).isSome ∧
      Broker.amqp.DecodesAlike "fresh" ⟨"id-1", "receipt-1"⟩ m ∧
        Broker.amqp.RepliesAlike "fresh" ⟨"id-1", "receipt-1"⟩ m := by
  intro m
  have hbody : (Text.decode? m.payload.body).isSome := by
    have htext : Text.decode? m.payload.body = some "pong" := Text.decode?_toUTF8 "pong"
    rw [htext]
    rfl
  have hretypes : ¬Broker.amqp.Retypes m.payload := fun h => absurd h.2.1 (by decide)
  have h := decodesAlike_iff .amqp "fresh" ⟨"id-1", "receipt-1"⟩ hbody
  exact ⟨hbody, h.1.mpr hretypes, h.2.mpr hretypes⟩

theorem not_forall_decodesAlike :
    ¬∀ (b : Broker) (fresh : String) (ids : FreshIds) (m : Message b.protocol.Route),
      (Text.decode? m.payload.body).isSome → b.DecodesAlike fresh ids m := by
  intro h
  have hbody : (Text.decode? labelled.body).isSome := by
    have htext : Text.decode? labelled.body = some "\x7b\x7d" := Text.decode?_toUTF8 "\x7b\x7d"
    rw [htext]
    rfl
  have halike := h .nats "fresh" ⟨"id-1", "receipt-1"⟩ (.new (⟨"jobs"⟩ : Nats.Route) labelled) hbody
  exact (Broker.nats.ofBody_parse_build_iff _ _ hbody).mp (Program.done.inj (halike Unit))
    (retypes_labelled .nats)

end Broker
end MessageDispatch
