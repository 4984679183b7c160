import QuestScript.Dict

/-! Tables of a document. A table grows only in ways that leave no doubt which part of the document
describes it: no key is given twice, a table with a header of its own has one header, and dotted
keys reach only into tables that dotted keys or longer headers brought about. -/
namespace QuestScript.Toml

inductive Origin where
  /-- By a header of its own, or as the whole document. -/
  | stated
  /-- On the way to the table of a longer header. -/
  | implied
  /-- On the way to the value of a dotted key. -/
  | dotted
  deriving DecidableEq

mutual

inductive Item where
  | text (s : String)
  /-- A number, a truth value, a date or time, an array or an inline table. It is checked when it
  is read, and no more is kept of it. -/
  | other
  | table (t : Table)
  /-- A list of tables. Only the last one can still grow. -/
  | tables (last : Table)

structure Table where
  origin : Origin
  items : Dict String Item

end

structure Key where
  path : List String
  name : String

namespace Table

def ofOrigin (origin : Origin) : Table := ⟨origin, Dict.empty⟩

def get? (table : Table) (name : String) : Option Item := table.items.get? name

def put (table : Table) (name : String) (item : Item) : Table :=
  { table with items := table.items.insert name item }

/-- Changes the table at the end of a path. Tables that are missing on the way are made, and the
way leads on through the last of a list of tables. A dotted path does not lead into a table that
has a header. -/
def alter (dotted : Bool) (change : Table → Option Table) : List String → Table → Option Table
  | [], table => change table
  | name :: path, table =>
    match table.get? name with
    | none => do
      let made := ofOrigin (if dotted then .dotted else .implied)
      return table.put name (.table (← alter dotted change path made))
    | some (.table inner) =>
      if dotted ∧ inner.origin = .stated then none
      else do return table.put name (.table (← alter dotted change path inner))
    | some (.tables last) => do
      return table.put name (.tables (← alter dotted change path last))
    | some _ => none

/-- Adds an item under a new key. Where the key is dotted, the table it ends in must be one that
dotted keys brought about. -/
def add (table : Table) (key : Key) (item : Item) : Option Table :=
  alter true
    (fun inner =>
      if (key.path ≠ [] ∧ inner.origin ≠ .dotted) ∨ inner.items.contains key.name then none
      else some (inner.put key.name item))
    key.path table

/-- Adds a table for a header. Only a table that longer headers implied may be there already. -/
def addTable (table : Table) (key : Key) : Option Table :=
  alter false
    (fun inner =>
      match inner.get? key.name with
      | none => some (inner.put key.name (.table (ofOrigin .stated)))
      | some (.table known) =>
        if known.origin = .implied then
          some (inner.put key.name (.table { known with origin := .stated }))
        else none
      | some _ => none)
    key.path table

def addToList (table : Table) (key : Key) : Option Table :=
  alter false
    (fun inner =>
      match inner.get? key.name with
      | none | some (.tables _) => some (inner.put key.name (.tables (ofOrigin .stated)))
      | some _ => none)
    key.path table

def addAll (table : Table) (items : List (Key × Item)) : Option Table :=
  items.foldlM (fun table entry => table.add entry.1 entry.2) table

end Table

end QuestScript.Toml
