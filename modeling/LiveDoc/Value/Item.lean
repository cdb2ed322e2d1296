import LiveDoc.Fault
import LiveDoc.Integer64
import LiveDoc.Value.Text

/-!
The parts of a value: items of a list, characters of a string, entries of a dictionary and
attributes. A negative position counts from the end. Storing an item keeps the length of a list
and the order of the keys of a dictionary; a new key comes last.
-/
namespace LiveDoc.Value

/-- The place that a position stands for among `length` items. -/
def place? (length : Nat) (position : Int) : Option Nat :=
  let i := if position < 0 then position + length else position
  if 0 ≤ i && i < length then some i.toNat else none

def toPosition (container position : Value) : Except Fault Int :=
  match position.toInt? with
  | some i => .ok i
  | none => .error (.badPosition container.kind position.kind)

/-- The item of `container` at one of its places, of which there are `length`. -/
def itemAt (container : Value) (length : Nat) (item? : Nat → Option Value) (position : Value) :
    Except Fault Value := do
  match (place? length (← toPosition container position)).bind item? with
  | some v => .ok v
  | none => .error (.outOfRange container.kind)

def item (container index : Value) : Except Fault Value :=
  match container with
  | list items => itemAt container items.length (items[·]?) index
  | str s =>
    let text := s.toList
    itemAt container text.length (fun i => text[i]?.map fun c => .str (String.singleton c)) index
  | dict entries =>
    let found := match index with
      | str key => entries.lookup key
      | _ => none
    match found with
    | some v => .ok v
    | none => .error (.missingKey index.repr)
  | other => .error (.noItems other.kind)

/-- Puts a value in the place of the entry with the given key, or behind all entries. -/
def setEntry (key : String) (v : Value) : List (String × Value) → List (String × Value)
  | [] => [(key, v)]
  | (k, old) :: rest => if k = key then (k, v) :: rest else (k, old) :: setEntry key v rest

def setItem (container index v : Value) : Except Fault Value :=
  match container with
  | list items => do
    match place? items.length (← toPosition container index) with
    | some i => .ok (.list (items.set i v))
    | none => .error .outOfRangeToSet
  | dict entries =>
    match index with
    | str key => .ok (.dict (setEntry key v entries))
    | other => .error (.badKey other.kind)
  | other => .error (.fixedItems other.kind)

/-- What a loop over a value visits. -/
def visited (v : Value) : Except Fault (List Value) :=
  match v with
  | list items => .ok items
  | str s => .ok (s.toList.map fun c => .str (String.singleton c))
  | dict entries => .ok (entries.map fun (key, _) => .str key)
  | other => .error (.notIterable other.kind)

def attributeOfScope? (s : Scope) : String → Option Value
  | "name" => some (.str s.name)
  | "level" => some (.int (Integer64.saturated s.level))
  | "path" => some (.str s.path)
  | _ => none

def attributeOf (object : Value) (name : String) : Except Fault Value :=
  let found := match object with
    | str s => (StringMethod.ofName? name).map (.method s)
    | scope s => attributeOfScope? s name
    | _ => none
  match found with
  | some v => .ok v
  | none => .error (.noAttribute object.kind name)

end LiveDoc.Value
