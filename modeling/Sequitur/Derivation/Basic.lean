import Sequitur.Rule.Apply

/-!
# Sequitur.Derivation.Basic

Derivations: proof trees, possibly with gaps.  A node is a goal, a sequent
that remains to be proved, or a sequent together with the rule that proves
it and the derivations of that rule's premises.

A node is located by its path: the positions of the premises to follow from
the root.  Applying a request to a goal gives a new tree in which only the
nodes along the path differ.
-/

namespace Sequitur

/-- A proof tree, possibly with goals left. -/
inductive Derivation (ν : Type := Name) where
  | goal (s : Sequent ν)
  | node (s : Sequent ν) (rule : Rule) (premises : List (Derivation ν))

/-- The positions of the premises that lead from the root to a node. -/
abbrev Path := List Int

/-- A path as it is shown: its positions between brackets. -/
def Path.toString (path : Path) : String :=
  "[" ++ Request.joined " " (path.map ToString.toString) ++ "]"

/-- Why a request cannot be applied somewhere in a derivation. -/
inductive DerivationError where
  /-- There is no goal left. -/
  | complete
  /-- There is no node at the path. -/
  | noNode (path : Path)
  /-- The node at the path has a rule already. -/
  | alreadyProved (path : Path) (rule : Rule)
  /-- The call is no request. -/
  | invalid (e : RequestError)
  /-- The request does not fit the goal. -/
  | refused (e : NotApplicable)
deriving DecidableEq

/-- The message of an error. -/
def DerivationError.message : DerivationError → String
  | complete => "proof is complete"
  | noNode path => "no node at path " ++ path.toString
  | alreadyProved path rule =>
    "node at path " ++ path.toString ++ " is already proved by " ++ rule.name
  | invalid e => e.message
  | refused e => e.message

namespace Derivation

/-- The sequent at the root. -/
def sequent : Derivation → Sequent
  | goal s => s
  | node s _ _ => s

/-- The rule at the root, if there is one. -/
def rule? : Derivation → Option Rule
  | goal _ => none
  | node _ k _ => some k

/-- The derivations of the premises of the root. -/
def premises : Derivation → List Derivation
  | goal _ => []
  | node _ _ ds => ds

/-- The node at a path. -/
def at? (d : Derivation) : Path → Option Derivation
  | [] => some d
  | i :: path =>
    match nth? d.premises i with
    | none => none
    | some premise => premise.at? path

mutual

/-- The path of the first goal, in pre-order from left to right. -/
def nextGoal? {ν : Type} : Derivation ν → Option Path
  | goal _ => some []
  | node _ _ ds => nextGoalAmong? 0 ds

/-- The path of the first goal among premises, the first of them at position `i`. -/
def nextGoalAmong? {ν : Type} (i : Nat) : List (Derivation ν) → Option Path
  | [] => none
  | d :: ds =>
    match d.nextGoal? with
    | some path => some ((i : Int) :: path)
    | none => nextGoalAmong? (i + 1) ds

end

/-- Whether no goal is left. -/
def isComplete (d : Derivation) : Bool := d.nextGoal?.isNone

/-- Replaces the node at a path, which exists. -/
def replace (d : Derivation) (new : Derivation) : Path → Derivation
  | [] => new
  | i :: path =>
    match d with
    | goal s => goal s
    | node s k ds =>
      match nth? ds i with
      | none => node s k ds
      | some premise => node s k (ds.set i.toNat (premise.replace new path))

/-- A rule applied to a sequent, its premises being goals. -/
def ofStep (s : Sequent) (step : Step) : Derivation :=
  node s step.rule (step.premises.map goal)

/-- Applies a request to the goal at a path. -/
def applyAt (d : Derivation) (path : Path) (r : Request) : Except DerivationError Derivation :=
  match d.at? path with
  | none => .error (.noNode path)
  | some (node _ k _) => .error (.alreadyProved path k)
  | some (goal s) =>
    match s.apply r with
    | .error e => .error (.refused e)
    | .ok step => .ok (d.replace (ofStep s step) path)

/-- Applies a request to the first goal. -/
def proveNext (d : Derivation) (r : Request) : Except DerivationError Derivation :=
  match d.nextGoal? with
  | none => .error .complete
  | some path => d.applyAt path r

/-- Applies a call to the goal at a path.  Whether the call is a request is
looked at only once the goal has been found. -/
def applyCallAt (d : Derivation) (path : Path) (call : Call) :
    Except DerivationError Derivation :=
  match d.at? path, call.check with
  | some (goal _), .error e => .error (.invalid e)
  | some (goal _), .ok r => d.applyAt path r
  | some (node _ k _), _ => .error (.alreadyProved path k)
  | none, _ => .error (.noNode path)

/-- Applies a call to the first goal. -/
def proveNextCall (d : Derivation) (call : Call) : Except DerivationError Derivation :=
  match d.nextGoal? with
  | none => .error .complete
  | some path => d.applyCallAt path call

/-! ## Traversal -/

mutual

/-- The nodes of a derivation with their paths, in pre-order from left to
right.  `path` is the path of the root, and the premises of a node are
visited only if `descend` allows it at the node's path. -/
def walkFrom (descend : Path → Bool) (path : Path) : Derivation → List (Path × Derivation)
  | goal s => [(path, goal s)]
  | node s k ds =>
    (path, node s k ds) :: if descend path then walkAmong descend path 0 ds else []

/-- The nodes of premises, the first of them at position `i` below `path`. -/
def walkAmong (descend : Path → Bool) (path : Path) (i : Nat) :
    List Derivation → List (Path × Derivation)
  | [] => []
  | d :: ds => walkFrom descend (path ++ [(i : Int)]) d ++ walkAmong descend path (i + 1) ds

end

/-- The nodes of a derivation with their paths, in pre-order from left to
right, without what lies below a node whose path `descend` refuses. -/
def walk (descend : Path → Bool) (d : Derivation) : List (Path × Derivation) :=
  walkFrom descend [] d

/-- The size of a derivation. -/
structure Stats where
  nodes : Nat
  proved : Nat
  goals : Nat
  /-- The number of nodes on the longest branch. -/
  depth : Nat
deriving DecidableEq

/-- Counts one more node. -/
def Stats.add (st : Stats) : Path × Derivation → Stats
  | (path, d) =>
    { nodes := st.nodes + 1
      proved := st.proved + (if d.rule?.isSome then 1 else 0)
      goals := st.goals + (if d.rule?.isNone then 1 else 0)
      depth := max st.depth (path.length + 1) }

/-- The size of a derivation. -/
def stats (d : Derivation) : Stats := (d.walk fun _ => true).foldl Stats.add ⟨0, 0, 0, 0⟩

end Derivation

end Sequitur
