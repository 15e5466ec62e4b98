import Entitlement.Broker
import Entitlement.Text.Blank

/-!
# Settings of the worker

The worker is set up by variables of its environment. All are read before any of them
is checked for sense, each in its turn, so that the first fault in that order is the
one reported.
-/

set_option autoImplicit false

namespace Entitlement.Worker

open Text

abbrev Environment := String → Option String

structure Settings where
  databaseAddress : String
  brokerAddress : String
  channel : String
  cacheSeconds : Nat
  sweepMillis : Nat
  batchSize : Nat
  deriving DecidableEq, Repr

namespace Settings

def databaseVariable : String := "DATABASE_URL"

def brokerVariable : String := "REDIS_URL"

def channelVariable : String := "ROLE_EVENT_CHANNEL"

def cacheVariable : String := "ROLE_CACHE_TTL_SECONDS"

def intervalVariable : String := "ASSIGNMENT_SWEEP_INTERVAL_MS"

def batchVariable : String := "ASSIGNMENT_SWEEP_BATCH_SIZE"

def required (env : Environment) (name : String) : Except Fault String :=
  match env name with
  | some value => .ok value
  | none => .error (.settingMissing name)

def numberOr (absent : Nat) (env : Environment) (name : String) : Except Fault Nat :=
  match env name with
  | none => .ok absent
  | some value => (readUnsigned UInt64.size value).mapError (.settingUnreadable name value)

def channelOf (env : Environment) : String :=
  match env channelVariable with
  | some value => if blank value then Broker.defaultChannel else trim value
  | none => Broker.defaultChannel

def positive (name : String) (n : Nat) : Except Fault Unit :=
  if n = 0 then .error (.settingZero name) else .ok ()

def load (env : Environment) : Except Fault Settings := do
  let databaseAddress ← required env databaseVariable
  let brokerAddress ← required env brokerVariable
  let cacheSeconds ← numberOr 3600 env cacheVariable
  let sweepMillis ← numberOr 60000 env intervalVariable
  let batchSize ← numberOr 500 env batchVariable
  positive cacheVariable cacheSeconds
  positive intervalVariable sweepMillis
  positive batchVariable batchSize
  return ⟨databaseAddress, brokerAddress, channelOf env, cacheSeconds, sweepMillis, batchSize⟩

end Settings

end Entitlement.Worker
