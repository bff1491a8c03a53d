import MemberResolution.Toml.DateTime
import MemberResolution.Toml.Quoted

/-!
# Values and tables

A table remembers how it came about, because that decides which later lines
may still add to it. A dotted key passes through tables that dotted keys or
the headers of deeper tables have made and makes those that are missing; it
does not reach into a table that has a header of its own or stands between
braces. No key is given twice.
-/

namespace MemberResolution.Toml
set_option autoImplicit false

/-- How a table came about. -/
inductive Origin where
  /-- By a header of its own. -/
  | header
  /-- By the header of a table below it. -/
  | implied
  /-- By a dotted key. -/
  | dotted
  /-- Between braces. -/
  | inline
  deriving DecidableEq

/-- A value under a key; `tables` is an array of tables, each with a header of its own. -/
inductive Value where
  | string (text : String)
  | integer (n : Int)
  | float (f : FloatValue)
  | boolean (b : Bool)
  | dateTime (d : DateTime)
  | array (items : List Value)
  | table (origin : Origin) (entries : List (String × Value))
  | tables (elements : List (List (String × Value)))

namespace Value

def string? : Value → Option String
  | string text => some text
  | _ => none

def boolean? : Value → Option Bool
  | boolean b => some b
  | _ => none

end Value

/-- The entries of a table, in the order in which they were made. -/
abbrev Entries := List (String × Value)

namespace Entries

/-- Gives `key` the value `v`, in its place if the key is taken and else at the end. -/
def set (key : String) (v : Value) : Entries → Entries
  | [] => [(key, v)]
  | (k, old) :: rest => if k = key then (k, v) :: rest else (k, old) :: set key v rest

/-- Changes the last of a list of tables. -/
def changeLast (change : Entries → Option Entries) : List Entries → Option (List Entries)
  | [] => none
  | [last] => do return [← change last]
  | first :: rest => do return first :: (← changeLast change rest)

/-- Adds `v` under `key` in the table at the end of a path, as a dotted key does: tables missing on the way
are made. `mayAdd` says whether the table in hand takes the entry if the path ends there. -/
def addDotted (key : String) (v : Value) : List String → (mayAdd : Bool) → Entries → Option Entries
  | [], mayAdd, entries =>
    if mayAdd && (entries.lookup key).isNone then some (entries ++ [(key, v)]) else none
  | step :: path, _, entries =>
    match entries.lookup step with
    | none => do
      let below ← addDotted key v path true []
      return set step (.table .dotted below) entries
    | some (.table .dotted below) => do
      let below ← addDotted key v path true below
      return set step (.table .dotted below) entries
    | some (.table .implied below) => do
      let below ← addDotted key v path false below
      return set step (.table .implied below) entries
    | some (.tables elements) => do
      let elements ← changeLast (addDotted key v path false) elements
      return set step (.tables elements) entries
    | some _ => none

/-- Changes the table at the end of a path, as the headers of its tables do: tables missing on the way are
implied, and of an array of tables the last one is meant. -/
def changeBelow (change : Entries → Option Entries) : List String → Entries → Option Entries
  | [], entries => change entries
  | step :: path, entries =>
    match entries.lookup step with
    | none => do
      let below ← changeBelow change path []
      return set step (.table .implied below) entries
    | some (.table .inline _) => none
    | some (.table origin below) => do
      let below ← changeBelow change path below
      return set step (.table origin below) entries
    | some (.tables elements) => do
      let elements ← changeLast (changeBelow change path) elements
      return set step (.tables elements) entries
    | some _ => none

/-- Gives the table under `key` a header of its own and fills it. Until then it is either missing or implied. -/
def openTable (fill : Entries → Option Entries) (key : String) (entries : Entries) : Option Entries :=
  match entries.lookup key with
  | none => do return set key (.table .header (← fill [])) entries
  | some (.table .implied below) => do return set key (.table .header (← fill below)) entries
  | some _ => none

/-- Appends a table to the array of tables under `key` and fills it. -/
def openElement (fill : Entries → Option Entries) (key : String) (entries : Entries) : Option Entries :=
  match entries.lookup key with
  | none => do return set key (.tables [← fill []]) entries
  | some (.tables elements) => do return set key (.tables (elements ++ [← fill []])) entries
  | some _ => none

end Entries
end MemberResolution.Toml
