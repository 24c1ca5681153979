import Chassis.Harness.Agents
import Chassis.Lib.Calls

/-!
# Scope handles

The desired tree as the source keeps it: scopes are objects that know their parent and list their
children, and an index finds them by path.  Whoever holds a scope can go on using it after it was
removed.

* `Handle`       a scope as an object;
* `HandleTree`   the index, what the scopes list and declare, and the entries of the owner;
* `child`, `ensure`, `attach`, `remove`, `scopePath`   as in the source; what raises returns the
                 tree it leaves behind as well;
* `TreeOp`       the calls on the tree and its scopes; `after` is what a sequence of them leads to.
-/

namespace Chassis
open Py

/-! ## scopes as objects -/

structure ScopeName where
  text : String
  valid : validateScopeName text = .ok ()
  deriving DecidableEq

/-- A scope as an object: its parent and its name never change.  The serial number tells scopes of
one path apart that were created at different times. -/
inductive Handle
  | root
  | child (parent : Handle) (name : ScopeName) (serial : Nat)
  deriving DecidableEq

namespace Handle

def name : Handle → String
  | root => "root"
  | child _ name _ => name.text

def parent : Handle → Option Handle
  | root => none
  | child parent _ _ => some parent

def path : Handle → String
  | root => rootScope
  | child parent name _ => joinPath parent.path name.text

def depth : Handle → Nat
  | root => 0
  | child parent _ _ => parent.depth + 1

/-- it was created before the `n`-th scope, and after its parent -/
def Issued : Handle → Nat → Prop
  | root, _ => True
  | child parent _ serial, n => serial < n ∧ parent.Issued serial

instance decidableIssued : ∀ (h : Handle) (n : Nat), Decidable (h.Issued n)
  | root, _ => isTrue trivial
  | child parent _ serial, n =>
    have : Decidable (parent.Issued serial) := decidableIssued parent serial
    inferInstanceAs (Decidable (serial < n ∧ parent.Issued serial))

end Handle

/-- what a scope declares, and can change -/
structure ScopeDeclaration where
  capabilities : Option (List String) := none
  tools : Option (List String) := none
  metadata : Dict String Value := Dict.empty
  requirements : Dict String CapabilityRequirement := Dict.empty

/-- the tree, and the entries of its owner -/
structure HandleTree where
  index : Dict String Handle := Dict.ofList [(rootScope, .root)]
  children : Handle → List Handle := fun _ => []
  declared : Handle → ScopeDeclaration := fun _ => {}
  /-- how many scopes were ever created -/
  created : Nat := 0
  owner : PluginRegistry := {}
  dirty : Bool := false

namespace HandleTree
variable (t : HandleTree)

/-! ## what is read of it -/

def get (path : String) : Except Err (Option Handle) := do
  return t.index.get? (← canonicalScopePath path)

def walk : Nat → Handle → List Handle
  | 0, _ => []
  | n + 1, scope => scope :: (sortedBy Handle.name (t.children scope)).flatMap (walk n)

/-- `_ordered`: no scope is deeper than so many were created -/
def ordered : List Handle := t.walk (t.created + 1) .root

def paths : List String := t.ordered.map Handle.path

def toSpec (scope : Handle) : ScopeSpec :=
  { path := scope.path
    name := scope.name
    parent := scope.parent.map Handle.path
    capabilities := (t.declared scope).capabilities
    tools := (t.declared scope).tools
    requirements := (sortedBy Prod.fst (t.declared scope).requirements.items).map Prod.snd
    metadata := (t.declared scope).metadata }

def specs : List ScopeSpec := t.ordered.map t.toSpec

inductive ScopeArg
  | none
  | path (path : String)
  | scope (scope : Handle)

def scopePath : ScopeArg → Except Err String
  | .none => .ok Handle.root.path
  | .path path => accept path
  | .scope scope => accept scope.path
where
  accept (path : String) : Except Err String := do
    let path ← canonicalScopePath path
    match ← t.get path with
    | some _ => .ok path
    | none => .error (ConfigurationError "cannot install into an undeclared composition scope"
        [("path", path)])

/-! ## adding scopes -/

def attach (scope : Handle) : Except Err HandleTree :=
  match t.index.get? scope.path, scope.parent with
  | none, some parent => .ok { t with
      children := Function.update t.children parent (t.children parent ++ [scope])
      index := t.index.set scope.path scope
      dirty := true }
  | _, _ => .error (ConfigurationError "duplicate composition scope path" [("path", scope.path)])

def construct (parent : Handle) (name : ScopeName) (declaration : ScopeDeclaration) :
    Handle × HandleTree :=
  let scope := Handle.child parent name t.created
  (scope, { t with
    declared := Function.update t.declared scope declaration
    created := t.created + 1 })

def child (parent : Handle) (name : String) (capabilities tools : Option (List String))
    (metadata : Dict String Value) : Except Err Handle × HandleTree :=
  match hname : validateScopeName name with
  | .error e => (.error e, t)
  | .ok () =>
    let (scope, t') := t.construct parent ⟨name, hname⟩
      ⟨capabilities.map nameSet, tools.map nameSet, metadata, Dict.empty⟩
    match t'.attach scope with
    | .error e => (.error e, t')
    | .ok t'' => (.ok scope, t'')

/-- `ensure`, by the names on the path, the innermost first -/
def ensureNames (t : HandleTree) : List String → Except Err Handle × HandleTree
  | [] => (.ok ((t.index.get? rootScope).getD .root), t)
  | name :: above =>
    match t.index.get? (Harness.pathOf (name :: above)) with
    | some scope => (.ok scope, t)
    | none =>
      match ensureNames t above with
      | (.error e, t') => (.error e, t')
      | (.ok parent, t') => t'.child parent name none none Dict.empty

def ensure (path : String) : Except Err Handle × HandleTree :=
  match canonicalScopePath path with
  | .error e => (.error e, t)
  | .ok path => t.ensureNames (Harness.segments path)

def resolveParent (parent : ScopeArg) (createParents : Bool) : Except Err Handle × HandleTree :=
  match parent with
  | .none => (.ok .root, t)
  | .scope scope => (.ok scope, t)
  | .path path =>
    if createParents then t.ensure path
    else
      match t.get path with
      | .error e => (.error e, t)
      | .ok none => (.error (ConfigurationError "composition scope parent does not exist"
          [("path", path)]), t)
      | .ok (some scope) => (.ok scope, t)

def treeChild (name : String) (parent : ScopeArg) (capabilities tools : Option (List String))
    (metadata : Dict String Value) (createParents : Bool) : Except Err Handle × HandleTree :=
  match t.resolveParent parent createParents with
  | (.error e, t') => (.error e, t')
  | (.ok scope, t') => t'.child scope name capabilities tools metadata

/-! ## removing scopes -/

def descendants (path : String) : List Handle :=
  sortedBy (fun h => -((h.path.toList.count '/' : Nat) : Int))
    (t.ordered.filter (fun h => CompositionTree.isWithin h.path path))

/-- the entries of a scope are uninstalled, and its path is taken from the index -/
def drop (t : HandleTree) (scope : Handle) : HandleTree :=
  { t with
    owner := (t.owner.entriesForScope scope.path).foldl (fun r e => (r.uninstall e).2) t.owner
    index := t.index.erase scope.path
    dirty := t.dirty || !(t.owner.entriesForScope scope.path).isEmpty }

/-- what `drop` of all these scopes uninstalls -/
def withdrawn : List Handle → HandleTree → List String
  | [], _ => []
  | scope :: rest, t => t.owner.entriesForScope scope.path ++ withdrawn rest (t.drop scope)

/-- `remove`: the parent has to list the scope -/
def remove (path : String) : Except Err (List String) × HandleTree :=
  if path = rootScope then
    (.error (ConfigurationError "the root composition scope cannot be removed" [("path", path)]), t)
  else
    match canonicalScopePath path with
    | .error e => (.error e, t)
    | .ok path =>
      match t.index.get? path with
      | none => (.ok [], t)
      | some scope =>
        let gone := t.descendants path
        let t' := gone.foldl drop t
        match scope.parent with
        | none => (.ok (sorted (withdrawn gone t)), { t' with dirty := true })
        | some parent =>
          if scope ∈ t'.children parent then
            (.ok (sorted (withdrawn gone t)), { t' with
              children := Function.update t'.children parent ((t'.children parent).erase scope)
              dirty := true })
          else
            (.error { kind := .Other, message := "list.remove(x): x not in list" }, t')

/-! ## calls -/

/-- `install` into a scope -/
def install (plugin : Plugin) (entryId : Option String) (replace : Bool) (scope : ScopeArg) :
    Except Err String × HandleTree :=
  match t.scopePath scope with
  | .error e => (.error e, t)
  | .ok path =>
    match t.owner.install plugin entryId replace path with
    | .error e => (.error e, t)
    | .ok (entry, owner) => (.ok entry.entryId, { t with owner := owner, dirty := true })

end HandleTree

inductive TreeOp
  | child (scope : Handle) (name : String) (capabilities tools : Option (List String))
    (metadata : Dict String Value)
  | treeChild (name : String) (parent : HandleTree.ScopeArg)
    (capabilities tools : Option (List String)) (metadata : Dict String Value)
    (createParents : Bool)
  | ensure (path : String)
  | attach (scope : Handle)
  | remove (path : String)
  /-- whatever a scope changes of its views, its requirements and its metadata -/
  | declare (scope : Handle) (change : ScopeDeclaration → ScopeDeclaration)
  | install (plugin : Plugin) (entryId : Option String) (replace : Bool)
    (scope : HandleTree.ScopeArg)
  | uninstall (entryId : String)

namespace HandleTree

/-- what a call leaves behind, whether it raises or not -/
def step (t : HandleTree) : TreeOp → HandleTree
  | .child scope name capabilities tools metadata =>
    (t.child scope name capabilities tools metadata).2
  | .treeChild name parent capabilities tools metadata createParents =>
    (t.treeChild name parent capabilities tools metadata createParents).2
  | .ensure path => (t.ensure path).2
  | .attach scope =>
    match t.attach scope with
    | .error _ => t
    | .ok t' => t'
  | .remove path => (t.remove path).2
  | .declare scope change =>
    { t with declared := Function.update t.declared scope (change (t.declared scope))
             dirty := true }
  | .install plugin entryId replace scope => (t.install plugin entryId replace scope).2
  | .uninstall entryId =>
    { t with owner := (t.owner.uninstall entryId).2
             dirty := t.dirty || (t.owner.uninstall entryId).1 }

theorem step_attach (t : HandleTree) (scope : Handle) :
    t.step (.attach scope) = ((t.attach scope).toOption).getD t := by
  simp only [step]
  cases t.attach scope <;> rfl

/-- the tree after these calls on a new one -/
def after (ops : List TreeOp) : HandleTree := Calls.run step {} ops

end HandleTree

/-- the scopes a call is made on were obtained from the tree -/
def TreeOp.Obtained (t : HandleTree) : TreeOp → Prop
  | .child scope _ _ _ _ => scope.Issued t.created
  | .treeChild _ (.scope scope) _ _ _ _ => scope.Issued t.created
  | .attach scope => scope.Issued t.created
  | .declare scope _ => scope.Issued t.created
  | .install _ _ _ (.scope scope) => scope.Issued t.created
  | _ => True

instance TreeOp.decidableObtained (t : HandleTree) : ∀ op : TreeOp, Decidable (op.Obtained t)
  | .child scope _ _ _ _ => scope.decidableIssued _
  | .treeChild _ (.scope scope) _ _ _ _ => scope.decidableIssued _
  | .treeChild _ .none _ _ _ _ => isTrue trivial
  | .treeChild _ (.path _) _ _ _ _ => isTrue trivial
  | .ensure _ => isTrue trivial
  | .attach scope => scope.decidableIssued _
  | .remove _ => isTrue trivial
  | .declare scope _ => scope.decidableIssued _
  | .install _ _ _ .none => isTrue trivial
  | .install _ _ _ (.path _) => isTrue trivial
  | .install _ _ _ (.scope scope) => scope.decidableIssued _
  | .uninstall _ => isTrue trivial

namespace HandleTree

/-- every scope the calls are made on was obtained from the tree before -/
def Legit (ops : List TreeOp) : Prop :=
  Calls.Throughout step {} (fun t op => op.Obtained t) ops

end HandleTree
end Chassis
