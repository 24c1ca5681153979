import Chassis.Composition

/-!
# Runtime generations

* `RuntimeGeneration`    an immutable view of the composition, with its lease accounting;
* `GenerationManager`    the current generation, those that drain and those that retired;
* `build`, `publish`, `retire`, `acquireLease`, `releaseLease`   as in the source, each without
                         an await and therefore atomic.

A generation is changed only through the manager, which holds it once; instances are held by value,
and only what is fixed when they are published is read of them.
-/

namespace Chassis
open Py

structure CapabilitySnapshot where
  generationId : String
  registrations : List CapabilityRegistration
  deriving DecidableEq

def CapabilitySnapshot.fromRegistrations (generationId : String)
    (registrations : List CapabilityRegistration) : CapabilitySnapshot :=
  ⟨generationId, sortedBy registrationOrder registrations⟩

inductive GenerationState
  | building
  | active
  | draining
  | retired
  deriving DecidableEq, Repr

structure GenerationMetadata where
  plugins : Nat
  scopes : Nat
  providerPreferences : Dict String String

structure RuntimeGeneration where
  generationId : String
  sequence : Nat
  snapshot : CapabilitySnapshot
  instances : List PluginInstance
  metadata : GenerationMetadata
  scopes : ScopeTree
  state : GenerationState := .building
  /-- how many leases are outstanding -/
  leases : Nat := 0
  /-- their ids -/
  starts : List Nat := []
  nextLease : Nat := 0

namespace RuntimeGeneration

def instanceIds (g : RuntimeGeneration) : List String := g.instances.map (·.instanceId)

def acquire (g : RuntimeGeneration) : Nat × RuntimeGeneration :=
  (g.nextLease, { g with
    leases := g.leases + 1, starts := g.starts ++ [g.nextLease], nextLease := g.nextLease + 1 })

/-- `GenerationAccounting.release`: whether the generation just became idle -/
def release (g : RuntimeGeneration) (leaseId : Nat) : Except Err (Bool × RuntimeGeneration) :=
  if leaseId ∈ g.starts then
    .ok (g.leases - 1 = 0, { g with leases := g.leases - 1, starts := g.starts.erase leaseId })
  else .error { kind := .UnknownLeaseError, message := "lease is not outstanding"
                context := [("lease_id", toString leaseId)] }

end RuntimeGeneration

/-- `f"gen_{sequence:04d}"` -/
def generationId (sequence : Nat) : String := "gen_" ++ padded sequence

theorem generationId_injective {m n : Nat} (h : generationId m = generationId n) : m = n := by
  have htext : "gen_".toList ++ (padded m).toList = "gen_".toList ++ (padded n).toList := by
    rw [← String.toList_append, ← String.toList_append]
    exact congrArg String.toList h
  exact padded_injective (String.toList_inj.1 (List.append_cancel_left htext))

structure GenerationManager where
  current : Option RuntimeGeneration := none
  /-- oldest first -/
  draining : List RuntimeGeneration := []
  retired : List RuntimeGeneration := []
  historyLimit : Nat := 32
  evicted : Nat := 0
  /-- the sequence number that is next -/
  counter : Nat := 1

namespace GenerationManager
variable (m : GenerationManager)

/-- generations still reachable by an active run -/
def live : List RuntimeGeneration := m.current.toList ++ m.draining

def reachableInstanceIds : List String := m.live.flatMap RuntimeGeneration.instanceIds

/-- a candidate generation, invisible until it is published -/
def build (snapshotFactory : String → CapabilitySnapshot) (instances : List PluginInstance)
    (metadata : GenerationMetadata) (scopes : ScopeTree) : RuntimeGeneration × GenerationManager :=
  ({ generationId := generationId m.counter
     sequence := m.counter
     snapshot := snapshotFactory (generationId m.counter)
     instances := instances
     metadata := metadata
     scopes := scopes },
   { m with counter := m.counter + 1 })

/-- the one that was current drains, the new one is current -/
def publish (g : RuntimeGeneration) : Except Err (Option RuntimeGeneration × GenerationManager) :=
  if g.state ≠ .building then
    .error (GenerationConflictError "only a building generation can be published"
      [("generation_id", g.generationId)])
  else
    let outgoing := m.current.map fun p => { p with state := .draining }
    .ok (outgoing, { m with
      draining := m.draining ++ outgoing.toList
      current := some { g with state := .active } })

/-- Retirement is refused while a lease remains.  Only the newest retired generations are kept. -/
def retire (g : RuntimeGeneration) : Except Err GenerationManager :=
  match g.state with
  | .retired => .ok m
  | .active => .error (GenerationConflictError
      "cannot retire the current generation while it is active"
      [("generation_id", g.generationId)])
  | _ =>
    if 0 < g.leases then
      .error (GenerationConflictError "cannot retire a generation with outstanding leases"
        [("generation_id", g.generationId)])
    else
      let retired := m.retired ++ [{ g with state := .retired }]
      let overflow := retired.length - m.historyLimit
      .ok { m with
        draining := m.draining.filter (fun d => d.generationId ≠ g.generationId)
        retired := retired.drop overflow
        evicted := m.evicted + overflow }

/-- the accounting of one generation, wherever the manager keeps it -/
def mapGeneration (sequence : Nat) (f : RuntimeGeneration → RuntimeGeneration) :
    GenerationManager :=
  let at' (g : RuntimeGeneration) := if g.sequence = sequence then f g else g
  { m with
    current := m.current.map at', draining := m.draining.map at', retired := m.retired.map at' }

def find? (sequence : Nat) : Option RuntimeGeneration :=
  (m.live ++ m.retired).find? (fun g => g.sequence = sequence)

end GenerationManager

/-- one run's hold on one generation -/
structure GenerationLease where
  generation : RuntimeGeneration
  leaseId : Nat

namespace GenerationManager
variable (m : GenerationManager)

def acquireLease : Except Err (GenerationLease × GenerationManager) :=
  match m.current with
  | none => .error (HarnessStateError "no runtime generation is available")
  | some g =>
    if g.state ≠ .active then .error (HarnessStateError "no runtime generation is available")
    else .ok (⟨g, g.acquire.1⟩, { m with current := some g.acquire.2 })

/-- `release_lease`: whether this was the last lease of a draining generation.  A generation that
the manager has forgotten retired without leases. -/
def releaseLease (l : GenerationLease) : Except Err (Bool × GenerationManager) :=
  match m.find? l.generation.sequence with
  | none => .error { kind := .UnknownLeaseError, message := "lease is not outstanding"
                     context := [("lease_id", toString l.leaseId)] }
  | some g => do
    let (becameIdle, g') ← g.release l.leaseId
    return (becameIdle && g.state = .draining,
      m.mapGeneration l.generation.sequence fun _ => g')

end GenerationManager
end Chassis
