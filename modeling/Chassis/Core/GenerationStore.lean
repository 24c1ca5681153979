import Chassis.Core.Accounting

/-!
# The generation manager, with its objects

In `GenerationManager` a generation is held by value, by whoever retains it.  Here the accounting
objects are kept apart, each under the sequence number of its generation, so that a generation is
known as long as someone has a reference to it: also before it is published, after the history has
evicted it, and while its leases are returned late.

* `Generation`            the frozen fields of a generation;
* `GenerationAccounting`  its lifecycle state and its leases, the mutable fields;
* `GenerationStore`       the manager: every operation of the source, shutdown included.
-/

namespace Chassis
open Py

def GenerationState.value : GenerationState → String
  | .building => "building"
  | .active => "active"
  | .draining => "draining"
  | .retired => "retired"

/-- what a generation is made of -/
structure Generation where
  generationId : String
  sequence : Nat
  snapshot : CapabilitySnapshot
  instances : List PluginInstance
  metadata : GenerationMetadata
  scopes : ScopeTree

structure GenerationAccounting where
  state : GenerationState := .building
  leases : Nat := 0
  /-- the ids of the leases that are outstanding -/
  starts : List Nat := []
  nextLease : Nat := 0

namespace GenerationAccounting

def acquire (a : GenerationAccounting) : Nat × GenerationAccounting :=
  (a.nextLease, { a with
    starts := a.starts ++ [a.nextLease], leases := a.leases + 1, nextLease := a.nextLease + 1 })

/-- whether the generation just became idle -/
def release (a : GenerationAccounting) (leaseId : Nat) :
    Except Err (Bool × GenerationAccounting) :=
  if leaseId ∈ a.starts then
    .ok (a.leases - 1 = 0, { a with starts := a.starts.erase leaseId, leases := a.leases - 1 })
  else .error { kind := .UnknownLeaseError, message := "lease is not outstanding"
                context := [("lease_id", toString leaseId)] }

end GenerationAccounting

structure Lease where
  generation : Generation
  leaseId : Nat

structure GenerationStore where
  /-- the accounting of the generation with this sequence number -/
  accounting : Nat → GenerationAccounting := fun _ => {}
  current : Option Generation := none
  draining : Dict String Generation := Dict.empty
  /-- oldest first -/
  retired : List Generation := []
  historyLimit : Nat := 32
  evicted : Nat := 0
  shuttingDown : Bool := false
  /-- the sequence number that is next -/
  counter : Nat := 1

namespace GenerationStore
variable (s : GenerationStore)

def stateOf (g : Generation) : GenerationState := (s.accounting g.sequence).state

def leaseCount (g : Generation) : Nat := (s.accounting g.sequence).leases

def account (g : Generation) (a : GenerationAccounting) : GenerationStore :=
  { s with accounting := Function.update s.accounting g.sequence a }

/-- `generation.accounting.state = state` -/
def setState (g : Generation) (state : GenerationState) : GenerationStore :=
  s.account g { s.accounting g.sequence with state := state }

def live : List Generation := s.current.toList ++ s.draining.values

/-- The number is drawn before the snapshot is made, which may fail. -/
def build (snapshotFactory : String → Except Err CapabilitySnapshot)
    (instances : List PluginInstance) (metadata : GenerationMetadata) (scopes : ScopeTree) :
    Except Err Generation × GenerationStore :=
  ((snapshotFactory (generationId s.counter)).map fun snapshot =>
    { generationId := generationId s.counter
      sequence := s.counter
      snapshot := snapshot
      instances := instances
      metadata := metadata
      scopes := scopes },
   { s with counter := s.counter + 1 })

def drain (g : Generation) : GenerationStore :=
  { s.setState g .draining with draining := s.draining.set g.generationId g }

def publish (g : Generation) : Except Err (Option Generation × GenerationStore) :=
  if s.stateOf g ≠ .building then
    .error (GenerationConflictError "only a building generation can be published"
      [("generation_id", g.generationId), ("state", (s.stateOf g).value)])
  else
    let outgoing := s.current.filter fun p => p.sequence ≠ g.sequence
    let s' := outgoing.elim s s.drain
    .ok (s.current, { s'.setState g .active with current := some g })

/-- the newest retired generations are kept -/
def record (g : Generation) : GenerationStore :=
  let retired := s.retired ++ [g]
  let overflow := retired.length - s.historyLimit
  { s with retired := retired.drop overflow, evicted := s.evicted + overflow }

/-- Whether the state changed.  Leases are no obstacle once the shutdown has begun. -/
def retire (g : Generation) : Except Err (Bool × GenerationStore) :=
  match s.stateOf g with
  | .retired => .ok (false, s)
  | .active => .error (GenerationConflictError
      "cannot retire the current generation while it is active"
      [("generation_id", g.generationId)])
  | _ =>
    if 0 < s.leaseCount g ∧ s.shuttingDown = false then
      .error (GenerationConflictError "cannot retire a generation with outstanding leases"
        [("generation_id", g.generationId), ("leases", toString (s.leaseCount g))])
    else
      let s' := { s.setState g .retired with draining := s.draining.erase g.generationId }
      .ok (true, { s'.record g with
        current := s.current.filter fun c => c.sequence ≠ g.sequence })

/-- the generations that must still be waited for -/
def beginShutdown : List Generation × GenerationStore :=
  let s' := s.current.elim s s.drain
  (s'.draining.values, { s' with shuttingDown := true, current := none })

def acquireLease : Except Err (Lease × GenerationStore) :=
  match s.current with
  | none => .error (HarnessStateError "no runtime generation is available")
  | some g =>
    if s.stateOf g ≠ .active then .error (HarnessStateError "no runtime generation is available")
    else
      let (leaseId, a) := (s.accounting g.sequence).acquire
      .ok (⟨g, leaseId⟩, s.account g a)

/-- whether this was the last lease of a draining generation -/
def releaseLease (l : Lease) : Except Err (Bool × GenerationStore) := do
  let (becameIdle, a) ← (s.accounting l.generation.sequence).release l.leaseId
  return (becameIdle && s.stateOf l.generation = .draining, s.account l.generation a)

/-! ## what happens to it -/

inductive Operation
  | build (snapshotFactory : String → Except Err CapabilitySnapshot)
      (instances : List PluginInstance) (metadata : GenerationMetadata) (scopes : ScopeTree)
  | publish (g : Generation)
  | retire (g : Generation)
  | acquireLease
  | releaseLease (l : Lease)
  | beginShutdown

/-- what an operation did -/
inductive Event
  | built (g : Generation)
  | published (g : Generation)
  | retired (g : Generation)
  | leased (l : Lease)
  | released (l : Lease)
  | shutdown

/-- The store after an operation, and what it did: a refused one nothing. -/
def perform : Operation → GenerationStore × List Event
  | .build snapshotFactory instances metadata scopes =>
    match s.build snapshotFactory instances metadata scopes with
    | (.ok g, s') => (s', [.built g])
    | (.error _, s') => (s', [])
  | .publish g =>
    match s.publish g with
    | .ok (_, s') => (s', [.published g])
    | .error _ => (s, [])
  | .retire g =>
    match s.retire g with
    | .ok (true, s') => (s', [.retired g])
    | .ok (false, s') => (s', [])
    | .error _ => (s, [])
  | .acquireLease =>
    match s.acquireLease with
    | .ok (l, s') => (s', [.leased l])
    | .error _ => (s, [])
  | .releaseLease l =>
    match s.releaseLease l with
    | .ok (_, s') => (s', [.released l])
    | .error _ => (s, [])
  | .beginShutdown => (s.beginShutdown.2, [.shutdown])

/-- the generations an operation is given are among those that were built -/
def Operation.Known (history : List Event) : Operation → Prop
  | .publish g => .built g ∈ history
  | .retire g => .built g ∈ history
  | .releaseLease l => .built l.generation ∈ history
  | _ => True

/-- what becomes of a fresh manager, with what its operations did, oldest first -/
inductive Reach (limit : Nat) : GenerationStore → List Event → Prop
  | fresh : Reach limit { historyLimit := limit } []
  | step {s : GenerationStore} {history : List Event} {op : Operation} :
      Reach limit s history → op.Known history →
      Reach limit (s.perform op).1 (history ++ (s.perform op).2)

end GenerationStore
end Chassis
