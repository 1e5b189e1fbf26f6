import QueryStubs.Entries
import QueryStubs.Json.StringMap

/-!
# Type tables

A type table maps the names of atomic types, as they are written, to the types that stubs use. Its entries keep the order in which
their names were first entered, and entering a name again replaces its type and leaves it in its place. No name occurs twice,
which is part of the type.
-/

namespace QueryStubs

/-- A map from the names of atomic types to types of stubs, in the order in which names were first entered. -/
structure TypeTable where
  entries : List (String × String)
  distinct : (entries.map (·.1)).Nodup

/-- What is wrong with the text of a type map. -/
inductive TypeMapFault where
  /-- The text is no object of strings. -/
  | malformed
  /-- An entry has an empty name or an empty type; its name is given. -/
  | emptyName (name : String)
  deriving DecidableEq, Repr

/-- The written form of a fault in a type map. -/
def TypeMapFault.message : TypeMapFault → String
  | malformed => "invalid type map"
  | emptyName name => "invalid type map: empty type name in entry `" ++ name ++ "`"

namespace TypeTable

/-- The table without entries. -/
def empty : TypeTable := ⟨[], List.nodup_nil⟩

/-- The table with a name mapped to a type. -/
def insert (t : TypeTable) (name type : String) : TypeTable :=
  ⟨Entries.insert name type t.entries, Entries.nodup_keys_insert t.distinct⟩

/-- The table with some entries made one after another. -/
def insertAll (t : TypeTable) (entries : List (String × String)) : TypeTable :=
  entries.foldl (fun t e => t.insert e.1 e.2) t

/-- The table of some entries; of entries for one name the last one decides the type and the first one the place. -/
def ofList (entries : List (String × String)) : TypeTable := empty.insertAll entries

/-- The entries of two tables; those of the second replace those of the first. -/
def merge (t u : TypeTable) : TypeTable := t.insertAll u.entries

/-- The type that a name is mapped to. -/
def get? (t : TypeTable) (name : String) : Option String := t.entries.lookup name

/-- An insertion changes what is mapped for one name only. -/
theorem get?_insert (t : TypeTable) (name type n : String) :
    (t.insert name type).get? n = if n = name then some type else t.get? n :=
  Entries.lookup_insert name type n t.entries

/-- Whether a name is mapped to a type. -/
def contains (t : TypeTable) (name : String) : Bool := (t.get? name).isSome

/-- The number of entries. -/
def size (t : TypeTable) : Nat := t.entries.length

/-- Whether there are no entries. -/
def isEmpty (t : TypeTable) : Bool := t.entries.isEmpty

/-- Whether two tables map the same names to the same types, in whatever order. -/
def sameEntries (t u : TypeTable) : Bool :=
  t.size = u.size && t.entries.all fun e => u.get? e.1 = some e.2

/-- The table that is used unless another is asked for. -/
def standard : TypeTable := ofList [("xs:string", "String"), ("xs:boolean", "Boolean")]

/-- The standard table with numbers and dates. -/
def extended : TypeTable :=
  standard.merge (ofList [("xs:integer", "Int"), ("xs:int", "Int"), ("xs:long", "Long"), ("xs:short", "Short"),
    ("xs:byte", "Byte"), ("xs:double", "Double"), ("xs:float", "Float"), ("xs:decimal", "BigDecimal"),
    ("xs:anyURI", "String"), ("xs:date", "String"), ("xs:dateTime", "String"), ("xs:untypedAtomic", "String")])

/-- Reads a table from the text of an object of strings. The first entry with an empty name or type is refused. -/
def parse (text : String) : Except TypeMapFault TypeTable :=
  match StringMap.read? text with
  | none => .error .malformed
  | some entries =>
    let table := ofList entries
    match table.entries.find? fun e => e.1.isEmpty || e.2.isEmpty with
    | some e => .error (.emptyName e.1)
    | none => .ok table

end TypeTable

end QueryStubs
