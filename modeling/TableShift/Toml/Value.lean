/-! # TOML values and tables

The data model of TOML, with what must be remembered about a table to know which
later lines may add to it: a table written in one piece takes nothing more, one
opened by a header cannot be opened again.
-/

namespace TableShift

/-- How a table came to be. -/
inductive TomlTableKind where
  /-- By a header of its own. -/
  | header
  /-- By the header of a table inside it. -/
  | implied
  /-- By a key with dots. -/
  | dotted
  /-- Between braces, in one piece. -/
  | inline
  deriving Repr, DecidableEq, BEq

/-- A TOML value. Numbers with a fraction and times are kept as written. -/
inductive Toml where
  | string (text : String)
  | integer (value : Int)
  | float (text : String)
  | boolean (value : Bool)
  | dateTime (text : String)
  | array (items : List Toml)
  /-- The tables of headers in double brackets. -/
  | tables (items : List Toml)
  | table (kind : TomlTableKind) (members : List (String × Toml))
  deriving Repr, BEq, Inhabited

namespace Toml

abbrev Members := List (String × Toml)

/-- The member with a given key. -/
def member? (key : String) : Members → Option Toml
  | [] => none
  | (k, value) :: rest => if k == key then some value else member? key rest

/-- Puts a member in place of the one with its key, or at the end. -/
def setMember (key : String) (value : Toml) : Members → Members
  | [] => [(key, value)]
  | (k, old) :: rest => if k == key then (key, value) :: rest else (k, old) :: setMember key value rest

/-- Adds a value under a key with dots. A key is given once, and dots lead only
    through tables made by dots. -/
def insert (value : Toml) : List String → Members → Option Members
  | [], _ => none
  | [key], members =>
    match member? key members with
    | some _ => none
    | none => some (members ++ [(key, value)])
  | key :: keys, members =>
    match member? key members with
    | none => (insert value keys []).map fun inner => setMember key (.table .dotted inner) members
    | some (.table .dotted inner) =>
      (insert value keys inner).map fun inner => setMember key (.table .dotted inner) members
    | some _ => none

/-- Adds values under keys with dots. -/
def insertAll : List (List String × Toml) → Members → Option Members
  | [], members => some members
  | (keys, value) :: rest, members => (insert value keys members).bind (insertAll rest)

/-- Adds a table with its own lines under a header. -/
def insertTable (pairs : List (List String × Toml)) : List String → Members → Option Members
  | [], _ => none
  | [key], members =>
    match member? key members with
    | none => (insertAll pairs []).map fun inner => setMember key (.table .header inner) members
    | some (.table .implied inner) =>
      (insertAll pairs inner).map fun inner => setMember key (.table .header inner) members
    | some _ => none
  | key :: keys, members =>
    match member? key members with
    | none => (insertTable pairs keys []).map fun inner => setMember key (.table .implied inner) members
    | some (.table .inline _) => none
    | some (.table kind inner) =>
      (insertTable pairs keys inner).map fun inner => setMember key (.table kind inner) members
    | some _ => none

/-- Adds one more table with its own lines under a header in double brackets. -/
def appendTable (pairs : List (List String × Toml)) : List String → Members → Option Members
  | [], _ => none
  | [key], members =>
    match member? key members with
    | none =>
      (insertAll pairs []).map fun inner => setMember key (.tables [.table .header inner]) members
    | some (.tables items) =>
      (insertAll pairs []).map fun inner =>
        setMember key (.tables (items ++ [.table .header inner])) members
    | some _ => none
  | key :: keys, members =>
    match member? key members with
    | none => (appendTable pairs keys []).map fun inner => setMember key (.table .implied inner) members
    | some (.table .inline _) => none
    | some (.table kind inner) =>
      (appendTable pairs keys inner).map fun inner => setMember key (.table kind inner) members
    | some _ => none

end Toml

end TableShift
