import ApiContract.Yaml.Node

/-!
# The value of a document

Sequences stand for lists and mappings for dictionaries, in which a repeated key keeps its first place
and its last value. The entries that a merge key brings in come first, so that a mapping's own entries
prevail; of several merged mappings the first prevails. A key must not be a collection.
-/

namespace ApiContract.Yaml

namespace Node

private def refuse {α : Type} : Except Fault α := .error (.yaml .values)

/-- A value that may be a key. -/
private def asKey (v : Value) : Except Fault Value :=
  match v with
  | .list _ | .dict _ | .set _ => refuse
  | v => .ok v

private def isMerge (n : Node) : Bool := n.tag == .merge

/-- The tag of a node in the place of a key: the key `=` is a text. -/
private def keyTag (t : Tag) : Tag := if t == .value then .str else t

private def keysOnly (entries : List (Value × Value)) : List Value := entries.map (·.1)

/-- The only entry of a dictionary, as a pair. -/
private def onlyPair : List (Value × Value) → Except Fault Value
  | [e] => .ok (.tuple [e.1, e.2])
  | _ => refuse

/-- The value of a node in the place of a key. -/
def keyValue : Node → Except Fault Value
  | .scalar tag text => do asKey (← Scalar.toValue (keyTag tag) text)
  | .sequence .. | .mapping .. => refuse

/-- Merged entries, then a mapping's own. -/
private def joined (merged own : Except Fault (List (Value × Value))) :
    Except Fault (List (Value × Value)) := do
  let entries ← merged
  return entries ++ (← own)

mutual
/-- The value that a node stands for. -/
def toValue : Node → Except Fault Value
  | .scalar tag text => Scalar.toValue tag text
  | .sequence tag items =>
    match tag with
    | .seq => do return .list (← itemValues items)
    | .orderedMap | .pairs => do return .list (← pairValues items)
    | _ => refuse
  | .mapping tag entries =>
    match tag with
    | .map => do return .dict (Value.ofEntries (← joined (merges entries) (ownEntries entries)))
    | .set => do return .set (keysOnly (Value.ofEntries (← joined (merges entries) (ownEntries entries))))
    | _ => refuse
termination_by structural n => n

def itemValues : List Node → Except Fault (List Value)
  | [] => .ok []
  | n :: ns => do
    let v ← n.toValue
    return v :: (← itemValues ns)
termination_by structural ns => ns

/-- Mappings of one entry each, as pairs. -/
def pairValues : List Node → Except Fault (List Value)
  | [] => .ok []
  | n :: ns => do
    let pair ← onlyPair (← n.plainEntries)
    return pair :: (← pairValues ns)
termination_by structural ns => ns

/-- The entries of a mapping as they stand. -/
def plainEntries : Node → Except Fault (List (Value × Value))
  | .mapping _ entries => ownEntries entries
  | _ => refuse
termination_by structural n => n

/-- The entries of a mapping with those that are merged into it. -/
def allEntries : Node → Except Fault (List (Value × Value))
  | .mapping _ entries => joined (merges entries) (ownEntries entries)
  | _ => refuse
termination_by structural n => n

/-- The entries that the value of a merge key brings in. -/
def mergedEntries : Node → Except Fault (List (Value × Value))
  | .mapping _ entries => joined (merges entries) (ownEntries entries)
  | .sequence _ items => mergedItems items
  | .scalar .. => refuse
termination_by structural n => n

/-- The entries of several mappings, those of the last one first. -/
def mergedItems : List Node → Except Fault (List (Value × Value))
  | [] => .ok []
  | n :: ns => do
    let entries ← n.allEntries
    return (← mergedItems ns) ++ entries
termination_by structural ns => ns

def merges : List (Node × Node) → Except Fault (List (Value × Value))
  | [] => .ok []
  | (k, v) :: rest => do
    let here ← if k.isMerge then v.mergedEntries else pure []
    return here ++ (← merges rest)
termination_by structural es => es

def ownEntries : List (Node × Node) → Except Fault (List (Value × Value))
  | [] => .ok []
  | (k, v) :: rest => do
    if k.isMerge then ownEntries rest
    else
      let key ← k.keyValue
      let value ← v.toValue
      return (key, value) :: (← ownEntries rest)
termination_by structural es => es

end

end Node

/-- The value of a YAML document, null if there is none. -/
def readDocument (text : List Char) : Except Fault Value := do
  match ← Node.read text with
  | some n => n.toValue
  | none => return .null

end ApiContract.Yaml
