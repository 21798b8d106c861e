import Stencil.Data.Datum

/-!
# TOML tables

A TOML text builds up a tree of tables, and each table may only be added to in the way it came to be.
A table with a header of its own is finished by the next header; one that only lay on the way to
another may still get a header; one made by a dotted key is added to by dotted keys alone.
-/

namespace Stencil.Toml

/-- How a table came to be. -/
inductive Origin where
  /-- It has a header, or is a row, or is the whole text. -/
  | header
  /-- It lies on the way to a table with a header. -/
  | implied
  /-- It lies on the way to a value with a dotted key. -/
  | dotted
  deriving DecidableEq

/-- What stands under a key while a document is read. -/
inductive Entry where
  | value (d : Datum)
  | table (origin : Origin) (fields : List (String × Entry))
  /-- Tables under one key, of which only the last can still be added to. -/
  | rows (earlier : List (List (String × Entry))) (last : List (String × Entry))

/-- A table, and how it came to be. -/
structure Table where
  origin : Origin
  fields : Fields Entry

namespace Table

/-- The table of a document without a line. -/
def empty : Table := ⟨.header, []⟩

/-- Sets what stands under a key. -/
def set (t : Table) (key : String) (e : Entry) : Table := { t with fields := t.fields.insert key e }

/-- The table on the way along a dotted key or a header, made where there is none yet. -/
def wayOrigin (dotted : Bool) : Origin := if dotted then .dotted else .implied

/-- Changes the table at the end of a path of keys. A dotted key does not lead through a table that has
a header. -/
def alter? (dotted : Bool) (change : Table → Option Table) : List String → Table → Option Table
  | [], t => change t
  | key :: path, t =>
    match t.fields.get? key with
    | none => do
      let inner ← alter? dotted change path ⟨wayOrigin dotted, []⟩
      return t.set key (.table inner.origin inner.fields)
    | some (.value _) => none
    | some (.table origin fields) =>
      if dotted ∧ origin = .header then none
      else do
        let inner ← alter? dotted change path ⟨origin, fields⟩
        return t.set key (.table inner.origin inner.fields)
    | some (.rows earlier last) => do
      let inner ← alter? dotted change path ⟨.header, last⟩
      return t.set key (.rows earlier inner.fields)

/-- A value put in under a key that has none. At the end of a dotted key only a table made by dotted
keys is added to. -/
def put? (path : List String) (key : String) (d : Datum) : Table → Option Table :=
  alter? true (fun t =>
    if (t.origin = .dotted ↔ path ≠ []) ∧ !t.fields.contains key then some (t.set key (.value d))
    else none) path

/-- The table that a header names, which must not have a header yet. -/
def openTable? (path : List String) (key : String) : Table → Option Table :=
  alter? false (fun t =>
    match t.fields.get? key with
    | none => some (t.set key (.table .header []))
    | some (.table .implied fields) => some (t.set key (.table .header fields))
    | some _ => none) path

/-- A new row among the tables that a header names. -/
def openRow? (path : List String) (key : String) : Table → Option Table :=
  alter? false (fun t =>
    match t.fields.get? key with
    | none => some (t.set key (.rows [] []))
    | some (.rows earlier last) => some (t.set key (.rows (earlier ++ [last]) []))
    | some _ => none) path

/-- Changes the table at the end of the path of a header. -/
def within? (path : List String) (change : Table → Option Table) : Table → Option Table :=
  alter? false change path

end Table

namespace Entry

mutual

/-- The value that is read when the document ends. -/
def datum : Entry → Datum
  | value d => d
  | table _ fields => .mapping (datumFields fields)
  | rows earlier last => .sequence (datumRows earlier ++ [.mapping (datumFields last)])

/-- The values of fields. -/
def datumFields : List (String × Entry) → List (String × Datum)
  | [] => []
  | (key, e) :: fields => (key, e.datum) :: datumFields fields

/-- The values of the tables under one key. -/
def datumRows : List (List (String × Entry)) → List Datum
  | [] => []
  | fields :: rest => .mapping (datumFields fields) :: datumRows rest

end

end Entry

/-- The value of a table. -/
def Table.datum (t : Table) : Datum := .mapping (Entry.datumFields t.fields)

end Stencil.Toml
