import QuadStore.Json.Basic
/-!
# TOML documents

A document is a list of lines. Each opens a table or gives a value to a key of the table that is
open, and may be refused by what the lines before it have defined. So a table remembers how it came
about: only some tables can still be opened, or added to through a dotted key.
-/

namespace QuadStore

/-- How a table came about. -/
inductive Toml.Origin where
  /-- Written with its members between braces. -/
  | braces
  /-- Opened by a header of its own. -/
  | header
  /-- Passed by a header on the way to another table. -/
  | passed
  /-- Passed by a dotted key. -/
  | dotted
deriving DecidableEq, Repr

inductive Toml where
  | string (value : String)
  | bool (value : Bool)
  | number (text : String)
  | moment (text : String)
  | array (items : List Toml)
  | table (origin : Toml.Origin) (members : List (String × Toml))
  /-- Tables that were opened by headers of one name, the last of them first. -/
  | tables (items : List (List (String × Toml)))

namespace Toml

abbrev Members := List (String × Toml)

/-! ## Finding tables -/

def assign (key : String) (value : Toml) : Members → Members
  | [] => [(key, value)]
  | (other, old) :: rest =>
    if other == key then (key, value) :: rest else (other, old) :: assign key value rest

/-- Change the table at a path. A name that is not there yet becomes a table that was passed, and
the name of several tables leads to the last of them. -/
def modifyAt (change : Members → Option Members) : List String → Members → Option Members
  | [], members => change members
  | key :: path, members =>
    match members.lookup key with
    | none => do
      let inner ← modifyAt change path []
      return assign key (.table .passed inner) members
    | some (.table .braces _) => none
    | some (.table origin inner) => do
      let inner ← modifyAt change path inner
      return assign key (.table origin inner) members
    | some (.tables (last :: before)) => do
      let last ← modifyAt change path last
      return assign key (.tables (last :: before)) members
    | some _ => none

/-! ## Lines -/

/-- Give a value to a dotted key. Only tables passed by dotted keys take a member this way, but the
way may lead through any table without a header, and through the last of several tables. -/
def insert (value : Toml) : List String → Members → Option Members
  | [], _ => none
  | [key], members =>
    if (members.lookup key).isSome then none else some (members ++ [(key, value)])
  | key :: path, members =>
    match members.lookup key with
    | none => do
      let inner ← insert value path []
      return assign key (.table .dotted inner) members
    | some (.table .dotted inner) => do
      let inner ← insert value path inner
      return assign key (.table .dotted inner) members
    | some (.table .passed inner) =>
      if path.length == 1 then none
      else do
        let inner ← insert value path inner
        return assign key (.table .passed inner) members
    | some (.tables (last :: before)) =>
      if path.length == 1 then none
      else do
        let last ← insert value path last
        return assign key (.tables (last :: before)) members
    | some _ => none

/-- A table is opened once, and not after a dotted key has passed it. -/
def openTable (key : String) (members : Members) : Option Members :=
  match members.lookup key with
  | none => some (members ++ [(key, .table .header [])])
  | some (.table .passed inner) => some (assign key (.table .header inner) members)
  | some _ => none

def openItem (key : String) (members : Members) : Option Members :=
  match members.lookup key with
  | none => some (members ++ [(key, .tables [[]])])
  | some (.tables items) => some (assign key (.tables ([] :: items)) members)
  | some _ => none

inductive Line where
  /-- A header in single brackets opens a table. -/
  | table (path : List String)
  /-- A header in double brackets opens one more of several tables. -/
  | item (path : List String)
  | entry (key : List String) (value : Toml)

structure Document where
  members : Members := []
  /-- The path of the table that is open. -/
  opened : List String := []

namespace Document

def add (d : Document) : Line → Option Document
  | .table path => do
    let key ← path.getLast?
    let members ← modifyAt (openTable key) path.dropLast d.members
    return ⟨members, path⟩
  | .item path => do
    let key ← path.getLast?
    let members ← modifyAt (openItem key) path.dropLast d.members
    return ⟨members, path⟩
  | .entry key value => do
    let members ← modifyAt (insert value key) d.opened d.members
    return { d with members }

def ofLines (lines : List Line) : Option Document := lines.foldlM add {}

end Document

/-- The members of a table in braces. -/
def ofEntries (entries : List (List String × Toml)) : Option Toml := do
  let members ← entries.foldlM (fun members e => insert e.2 e.1 members) []
  return .table .braces members

/-! ## As JSON -/

mutual

/-- The same value as JSON, where a moment becomes an object of a kind of its own. -/
def toJson : Toml → Json
  | .string s => .string s
  | .bool b => .bool b
  | .number text => .number text
  | .moment text => .object [("moment", .string text)]
  | .array items => .array (itemsToJson items)
  | .table _ members => .object (membersToJson members)
  | .tables items => .array (tablesToJson items).reverse

def itemsToJson : List Toml → List Json
  | [] => []
  | item :: items => toJson item :: itemsToJson items

def membersToJson : List (String × Toml) → List (String × Json)
  | [] => []
  | (key, value) :: members => (key, toJson value) :: membersToJson members

def tablesToJson : List (List (String × Toml)) → List Json
  | [] => []
  | members :: items => .object (membersToJson members) :: tablesToJson items

end

end Toml

end QuadStore
