import MessageDispatch.Protocol.Amqp
import MessageDispatch.Protocol.Kafka
import MessageDispatch.Protocol.Nats
import MessageDispatch.Protocol.Redis
import MessageDispatch.Protocol.Sqs

/-! The brokers that the engine speaks to. -/
namespace MessageDispatch

inductive Broker where
  | amqp
  | kafka
  | nats
  | redis
  | sqs
deriving DecidableEq

def Broker.protocol : Broker → Protocol
  | .amqp => Amqp.protocol
  | .kafka => Kafka.protocol
  | .nats => Nats.protocol
  | .redis => Redis.protocol
  | .sqs => Sqs.protocol

/-- No call has seen a message that has just been parsed. -/
theorem Broker.processed_parse (b : Broker) (fresh : String) (raw : b.protocol.Raw) :
    (b.protocol.parse fresh raw).processed = false := by
  cases b with
  | amqp => exact Envelope.ofMetadata_processed ..
  | kafka => exact Envelope.ofMetadata_processed ..
  | nats => exact Envelope.ofMetadata_processed ..
  | redis =>
    show (Redis.parse fresh raw).processed = false
    unfold Redis.parse
    split
    · exact Envelope.ofMetadata_processed ..
    · rfl
  | sqs =>
    show (Sqs.parse fresh raw).processed = false
    unfold Sqs.parse
    split
    · exact Envelope.ofMetadata_processed ..
    · rw [Envelope.withMessageId_processed]
      exact Envelope.ofMetadata_processed ..

end MessageDispatch
