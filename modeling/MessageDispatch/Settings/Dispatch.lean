import MessageDispatch.Json.Printer
import MessageDispatch.Settings.Retry

/-! The settings of a consumer group. -/
namespace MessageDispatch

structure DispatchSettings where
  reconnectDelayMs : Nat
  rpcTimeoutMs : Nat
  publishTimeoutMs : Nat
  /-- Is a message offered to no further call once one has processed it? -/
  shortCircuit : Bool
  maxWorkers : Option Nat
  defaultRetry : RetryPolicy
deriving DecidableEq, Inhabited

namespace DispatchSettings

def default : DispatchSettings :=
  { reconnectDelayMs := 5000, rpcTimeoutMs := 30000, publishTimeoutMs := 3000,
    shortCircuit := false, maxWorkers := none, defaultRetry := .never }

def fields : List (Settings.Field DispatchSettings) :=
  [Settings.field "reconnect_delay_ms" (Settings.naturalOrText UInt64.size)
      fun s n => { s with reconnectDelayMs := n },
    Settings.field "rpc_timeout_ms" (Settings.naturalOrText UInt64.size)
      fun s n => { s with rpcTimeoutMs := n },
    Settings.field "publish_timeout_ms" (Settings.naturalOrText UInt64.size)
      fun s n => { s with publishTimeoutMs := n },
    Settings.field "short_circuit" Settings.bool fun s b => { s with shortCircuit := b },
    Settings.field "max_workers" (Settings.option (Settings.natural UInt64.size))
      fun s n => { s with maxWorkers := n },
    Settings.field "default_retry" (RetryPolicy.read Settings.fieldRoom)
      fun s p => { s with defaultRetry := p }]

def read : Settings.Reader DispatchSettings :=
  Settings.record fields true default

def parse (text : String) : Except Settings.Fault DispatchSettings :=
  Settings.readText read text

/-- The settings that a value holds, which is what its text holds. -/
def ofJson? (v : Json) : Option DispatchSettings :=
  (parse v.render).toOption

end DispatchSettings
end MessageDispatch
