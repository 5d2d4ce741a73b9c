import MessageDispatch.Settings.Reader

/-! How to reach a RabbitMQ broker. -/
namespace MessageDispatch

/-- A text that is not shown. -/
structure Secret where
  reveal : String
deriving DecidableEq

/-- What is shown in place of any secret. -/
def Secret.shown (_ : Secret) : String := "[REDACTED]"

structure TlsSettings where
  domain : Option String
  certificateChain : Option String
deriving DecidableEq

structure RabbitMqSettings where
  host : String
  vhost : String
  username : String
  password : Secret
  port : Nat
  connectionTimeoutSeconds : Option Nat
  prefetchCount : Nat
  maxConnections : Nat
  maxChannels : Nat
  tls : Option TlsSettings
deriving DecidableEq

namespace TlsSettings

def fields : List (Settings.Field TlsSettings) :=
  [Settings.field "domain" (Settings.option Settings.string) fun s d => { s with domain := d },
    Settings.field "ca_certificate_chain_pem" (Settings.option Settings.string)
      fun s c => { s with certificateChain := c }]

def read : Settings.Reader TlsSettings :=
  Settings.record fields false ⟨none, none⟩

/-- What is said of a certificate chain that cannot be read. -/
def badChain : String :=
  "Failed to decode PEM certificate chain for RabbitMQ TLS."

/-- Is there a certificate chain? `accepts` says which texts are one. -/
def chain (accepts : String → Bool) (s : TlsSettings) : Except String Bool :=
  match s.certificateChain with
  | none => .ok false
  | some pem => if accepts pem then .ok true else .error badChain

end TlsSettings

namespace RabbitMqSettings

def default : RabbitMqSettings :=
  { host := "localhost", vhost := "/", username := "guest", password := ⟨"guest"⟩, port := 5672,
    connectionTimeoutSeconds := some 10, prefetchCount := 50, maxConnections := 4,
    maxChannels := 16, tls := none }

def fields : List (Settings.Field RabbitMqSettings) :=
  [Settings.field "uri" Settings.string fun s v => { s with host := v },
    Settings.field "vhost" Settings.string fun s v => { s with vhost := v },
    Settings.field "username" Settings.string fun s v => { s with username := v },
    Settings.field "password" Settings.string fun s v => { s with password := ⟨v⟩ },
    Settings.field "port" (Settings.naturalOrText UInt16.size) fun s n => { s with port := n },
    Settings.field "connection_timeout_seconds" (Settings.option (Settings.natural UInt64.size))
      fun s n => { s with connectionTimeoutSeconds := n },
    Settings.field "prefetch_count" (Settings.naturalOrText UInt16.size)
      fun s n => { s with prefetchCount := n },
    Settings.field "max_connections" (Settings.naturalOrText UInt64.size)
      fun s n => { s with maxConnections := n },
    Settings.field "max_channels" (Settings.naturalOrText UInt64.size)
      fun s n => { s with maxChannels := n },
    Settings.field "tls" (Settings.option TlsSettings.read) fun s t => { s with tls := t }]

def read : Settings.Reader RabbitMqSettings :=
  Settings.record fields true default

def parse (text : String) : Except Settings.Fault RabbitMqSettings :=
  Settings.readText read text

def connectionTimeoutMs (s : RabbitMqSettings) : Nat :=
  s.connectionTimeoutSeconds.getD 10 * 1000

/-- Can a connection be set up? Only a certificate chain that cannot be read prevents it. -/
def connectable (accepts : String → Bool) (s : RabbitMqSettings) : Except String Unit :=
  match s.tls with
  | none => .ok ()
  | some tls => (tls.chain accepts).map fun _ => ()

end RabbitMqSettings
end MessageDispatch
