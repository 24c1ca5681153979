import Chassis.Capabilities.Keys

/-!
# Capability registrations

A provider bound to one contract.  The provider object itself never takes part in a decision and
is left out.
-/

namespace Chassis

structure CapabilityRegistration where
  registrationId : String
  key : CapabilityKey
  version : Version
  providerId : String
  providerName : String
  scopeId : String
  deriving DecidableEq

end Chassis
