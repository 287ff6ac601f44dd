/-! TOML values, and the tables that they are entered into. What may be added
to a table depends on how it came about. -/

namespace Userscript

inductive TableKind where
  /-- named by a header, or the outermost table -/
  | header
  /-- named only on the way to a table inside it -/
  | implied
  /-- named in a dotted key -/
  | dotted
  /-- written as a value -/
  | closed
  deriving DecidableEq, Repr

inductive Toml where
  | string (s : String)
  | boolean (b : Bool)
  /-- a number, date or time as it is written -/
  | scalar (text : String)
  | array (items : List Toml)
  | table (kind : TableKind) (entries : List (String × Toml))

namespace Toml

abbrev Entries := List (String × Toml)

def replaceEntry (key : String) (v : Toml) (entries : Entries) : Entries :=
  entries.map fun e => if e.1 = key then (key, v) else e

/-- Enters a value under a dotted key, all of whose tables are new or come from
dotted keys. -/
def insert (v : Toml) : List String → Entries → Option Entries
  | [], _ => none
  | [key], entries => if (entries.lookup key).isSome then none else some (entries ++ [(key, v)])
  | key :: path, entries =>
    match entries.lookup key with
    | none => (insert v path []).map fun inner => entries ++ [(key, table .dotted inner)]
    | some (table .dotted inner) =>
      (insert v path inner).map fun inner => replaceEntry key (table .dotted inner) entries
    | some _ => none

/-- Opens the table that a header names. It is new, or so far only implied. -/
def openTable : List String → Entries → Option Entries
  | [], _ => none
  | [key], entries =>
    match entries.lookup key with
    | none => some (entries ++ [(key, table .header [])])
    | some (table .implied inner) => some (replaceEntry key (table .header inner) entries)
    | some _ => none
  | key :: path, entries =>
    match entries.lookup key with
    | none => (openTable path []).map fun inner => entries ++ [(key, table .implied inner)]
    | some (table .closed _) => none
    | some (table kind inner) =>
      (openTable path inner).map fun inner => replaceEntry key (table kind inner) entries
    | some _ => none

def insertUnder (v : Toml) (path : List String) : List String → Entries → Option Entries
  | [], entries => insert v path entries
  | key :: header, entries =>
    match entries.lookup key with
    | some (table kind inner) =>
      (insertUnder v path header inner).map fun inner =>
        replaceEntry key (table kind inner) entries
    | _ => none

end Toml

end Userscript
