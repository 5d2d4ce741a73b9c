import MessageDispatch.Protocol.Basic

/-! Kafka. Records are processed one at a time unless asked otherwise, so that offsets are
committed in order; a record without a message id is known by its position. -/
namespace MessageDispatch.Kafka

structure Binding where
  topics : List String
  groupId : Option String
deriving DecidableEq

structure Route where
  topic : String
  key : Option ByteArray
  partition : Option Int32

structure Record where
  topic : String
  partition : Int32
  offset : Int64
  key : Option ByteArray
  timestampMs : Option Int64
  headers : List (String × ByteArray)
  body : ByteArray

def Binding.topic (topic : String) : Binding := ⟨[topic], none⟩

def Route.topicOnly (topic : String) : Route := ⟨topic, none, none⟩

/-- Where a record stands in its topic. -/
def Record.position (r : Record) : String :=
  r.topic ++ "-" ++ toString r.partition.toInt ++ "-" ++ toString r.offset.toInt

def parse (fresh : String) (r : Record) : Envelope :=
  .ofHeaders fresh r.body (.ofList (r.headers.map fun h => (h.1, Text.lossy h.2)))
    (some r.position) none

def accepts (b : Binding) (r : Route) (_ : Headers) : Bool :=
  b.topics.any (· == r.topic)

/-- Seconds as a signed 64-bit number, if they fit. -/
def signed? (seconds : UInt64) : Option Int64 :=
  if seconds.toNat < 0x8000000000000000 then some (Int64.ofNat seconds.toNat) else none

/-- The milliseconds of a second. -/
def perSecond : Int64 := 1000

/-- Seconds that fit may still be too many for their milliseconds to fit as well. -/
def overflows (m : Message Route) : Bool :=
  (m.timestamp.bind signed?).any fun seconds =>
    BitVec.smulOverflow seconds.toBitVec perSecond.toBitVec

def build (_ : FreshIds) (m : Message Route) : Record :=
  { topic := m.route.topic
    partition := m.route.partition.getD 0
    offset := 0
    key := m.route.key
    timestampMs := (m.timestamp.bind signed?).map (· * perSecond)
    headers := m.outgoingHeaders.entries.map fun h => (h.1, h.2.toUTF8)
    body := m.payload.body }

def subscriptionName (b : Binding) : String :=
  ",".intercalate b.topics

def describe (b : Binding) : BindingInfo :=
  ⟨"kafka", subscriptionName b, b.groupId, []⟩

def protocol : Protocol where
  name := "kafka"
  defaultWorkers := some 1
  Binding := Binding
  Route := Route
  Raw := Record
  bindingEq := inferInstance
  parse := parse
  accepts := accepts
  build := build
  overflows := overflows
  routeTo := Route.topicOnly
  replyBinding := Binding.topic
  subscriptionName := subscriptionName
  describe := describe

end MessageDispatch.Kafka
