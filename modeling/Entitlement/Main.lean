import Entitlement.Worker.Run

/-!
# The worker's command

Reads the settings from the environment and runs one round of maintenance on an empty
database and an empty broker, so that settings can be tried out. A fault goes to the
error stream.
-/

set_option autoImplicit false

namespace Entitlement.Worker

def settingNames : List String :=
  [Settings.databaseVariable, Settings.brokerVariable, Settings.channelVariable,
    Settings.cacheVariable, Settings.intervalVariable, Settings.batchVariable]

def readEnvironment : IO Environment := do
  let values ← settingNames.mapM fun name => do return (name, ← IO.getEnv name)
  return fun name => (values.lookup name).join

def emptySite : Site where
  databaseAnswers := true
  replies := []
  statements := []
  broker := .empty
  channel := Broker.defaultChannel
  published := []
  subscribed := []
  cache := .empty
  lifetimes := .default
  now := default
  moment := 0
  serial := 0

end Entitlement.Worker

def main : IO UInt32 := do
  match (Entitlement.Worker.run (← Entitlement.Worker.readEnvironment)
      Entitlement.Worker.emptySite).1 with
  | .ok () => return 0
  | .error fault =>
    IO.eprintln fault.printed
    return 1
