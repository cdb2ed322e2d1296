import LiveDoc.Settings.Toml.Key

/-!
Tables: entries in the order in which they were defined. A value is defined behind a path of
dotted keys, and a header opens a table for the lines below it. Nothing is defined twice: dotted
keys only lead on through tables that dotted keys made or that a header passed, and a header only
opens a table that is new or that another header passed.
-/
namespace LiveDoc.Toml

/-- A key, what it stands for, and the place of that if it has one of its own. -/
structure Entry (ι : Type) where
  key : Key
  place : Option Place
  item : ι

/-- What made a table. -/
inductive Origin where
  /-- A header, or the begin of the document. -/
  | header
  /-- A header of a table inside of it. -/
  | passed
  | dottedKey
  | braces
deriving DecidableEq, Repr

/-- What a key stands for. Of numbers, dates and the items of arrays nothing is kept. -/
inductive Item where
  | text (s : List Char)
  | bool (b : Bool)
  | other
  | array (isEmpty : Bool)
  | table (origin : Origin) (entries : List (Entry Item))
  /-- Tables with a header each; only the last one can still change. -/
  | tables (last : List (Entry Item))

abbrev Table := List (Entry Item)

/-- Why something cannot be defined. -/
inductive Conflict where
  /-- The name of a key is taken. The path leads to the table in question, if it is told. -/
  | taken (name : List Char) (path : Option (List Key))
  /-- What a path would have to pass is no table, or a header repeats another one. -/
  | blocked

def Conflict.reason? : Conflict → Option String
  | taken name path =>
    some ("duplicate key `" ++ String.ofList name ++ "`" ++
      match path with
      | none => ""
      | some [] => " in document root"
      | some path => " in table `" ++ ".".intercalate (path.map Key.shown) ++ "`")
  | blocked => none

namespace Table

/-- Changes the item of a name, or gives one to a new key behind all others. -/
def alter (key : Key) (change : Option Item → Except Conflict Item) :
    Table → Except Conflict Table
  | [] => (change none).map fun item => [⟨key, none, item⟩]
  | e :: rest =>
    if e.key.name = key.name then (change (some e.item)).map fun item => { e with item } :: rest
    else (alter key change rest).map (e :: ·)

def entry? (t : Table) (name : List Char) : Option (Entry Item) :=
  List.find? (fun e => e.key.name = name) t

/--
Defines an item behind a path of dotted keys, unless something stands in its way. `header` is the
path of the last header, or nothing within braces.
-/
def define (header : Option (List Key)) (e : Entry Item) :
    (path : List Key) → Table → Except Conflict Table
  | [], t =>
    if (t.entry? e.key.name).isSome then .error (.taken e.key.name header)
    else .ok (t ++ [e])
  | key :: path, t =>
    t.alter key fun item =>
      match item with
      | none => (define header e path []).map (Item.table .dottedKey)
      | some (.table .dottedKey entries) =>
        (define header e path entries).map (Item.table .dottedKey)
      | some (.table .passed entries) =>
        if path.isEmpty then .error (.taken e.key.name none)
        else (define header e path entries).map (Item.table .passed)
      | some (.tables last) =>
        if path.isEmpty then .error (.taken e.key.name none)
        else (define header e path last).map Item.tables
      | some (.table .header _) => .error (.taken key.name none)
      | some (.table .braces _) =>
        .error (if header.isNone then .taken key.name none else .blocked)
      | _ => .error .blocked

/-- Changes the table that the keys of a header lead to. -/
def within (change : Table → Except Conflict Table) :
    (path : List Key) → Table → Except Conflict Table
  | [], t => change t
  | key :: path, t =>
    t.alter key fun item =>
      match item with
      | none => (within change path []).map (Item.table .passed)
      | some (.table .braces _) => .error .blocked
      | some (.table origin entries) => (within change path entries).map (Item.table origin)
      | some (.tables last) => (within change path last).map Item.tables
      | _ => .error .blocked

/-- Opens a table with a header at a place. One that was passed moves behind the others. -/
def openTable (key : Key) (place : Place) (t : Table) : Except Conflict Table :=
  let opened (entries : Table) : Entry Item := ⟨key, some place, .table .header entries⟩
  match t.entry? key.name with
  | none => .ok (t ++ [opened []])
  | some ⟨_, _, .table .passed entries⟩ =>
    .ok (List.filter (fun e => e.key.name ≠ key.name) t ++ [opened entries])
  | some _ => .error .blocked

/-- Opens one more of several tables; the header of the first one gives them their place. -/
def openElement (key : Key) (place : Place) (t : Table) : Except Conflict Table :=
  match t.entry? key.name with
  | none => .ok (t ++ [⟨key, some place, .tables []⟩])
  | some ⟨_, _, .tables _⟩ => t.alter key fun _ => .ok (.tables [])
  | some _ => .error .blocked

end Table

end LiveDoc.Toml
