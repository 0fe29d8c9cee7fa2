/-!
# TOML documents

A document is a table of values under keys. Tables come about in four ways, and the way decides how
they may be added to later: a table written in place is closed; one opened by a header takes its
members under the header only; one made by a dotted key takes more dotted keys; and one that is only
implied by the header of a table inside it may still be opened by a header of its own.

Adding to a document fails where a key is given twice or leads through something that is no table.
-/

namespace GoAtlas.Toml

/-- How a table came about. -/
inductive Origin where
  /-- It is written in place, between braces. -/
  | literal
  /-- A header names a table inside it. -/
  | implied
  | header
  | dotted
  deriving DecidableEq, Repr, Inhabited

/-- A value. Numbers with a fraction or exponent, dates and times are kept as text only. -/
inductive Value where
  | str (s : String)
  | integer (n : Int)
  | boolean (b : Bool)
  | other (text : String)
  | array (items : List Value)
  | table (origin : Origin) (members : List (String × Value))
  /-- A list of tables under headers of their own; the last is kept apart. -/
  | tables (earlier : List (List (String × Value))) (last : List (String × Value))
  deriving Inhabited

/-- The values of a table under their keys, in order. -/
abbrev Members := List (String × Value)

namespace Members

/-- Changes the value of a key, which may be absent; an absent key is added at the end. -/
def alter (key : String) (change : Option Value → Option Value) : Members → Option Members
  | [] => (change none).map fun v => [(key, v)]
  | (other, v) :: rest =>
    if other = key then (change (some v)).map fun w => (key, w) :: rest
    else (alter key change rest).map ((other, v) :: ·)

/-- Changes the table at the end of a path. The change is told whether dotted keys made that table.
Absent tables on the way are made: by `dotted` keys, or because a header implies them. -/
def within (dotted : Bool) (change : Bool → Members → Option Members) :
    List String → Bool → Members → Option Members
  | [], made, members => change made members
  | key :: path, _, members =>
    members.alter key fun
      | none => (within dotted change path dotted []).map
          (.table (if dotted then .dotted else .implied))
      | some (.table origin inner) =>
        if origin = .literal ∨ (dotted ∧ origin = .header) then none
        else (within dotted change path (origin == .dotted) inner).map (.table origin)
      | some (.tables earlier last) =>
        (within dotted change path false last).map (.tables earlier)
      | some _ => none

/-- Adds a value under a key that must be absent. -/
def addNew (key : String) (v : Value) (members : Members) : Option Members :=
  members.alter key fun
    | none => some v
    | some _ => none

/-- Adds a value under a key that may be dotted. A dotted key adds to tables of dotted keys only. -/
def addKey (path : List String) (key : String) (v : Value) (members : Members) : Option Members :=
  within true (fun made inner => if made = path.isEmpty then none else addNew key v inner) path
    false members

/-- Opens the table of a header. -/
def openTable (path : List String) (key : String) (members : Members) : Option Members :=
  within false (fun _ inner => inner.alter key fun
    | none => some (.table .header [])
    | some (.table .implied content) => some (.table .header content)
    | some _ => none) path false members

/-- Opens one more table in a list of tables. -/
def openListed (path : List String) (key : String) (members : Members) : Option Members :=
  within false (fun _ inner => inner.alter key fun
    | none => some (.tables [] [])
    | some (.tables earlier last) => some (.tables (earlier ++ [last]) [])
    | some _ => none) path false members

/-- Adds a value under a key to the table that a header has opened. -/
def addUnder (header path : List String) (key : String) (v : Value) (members : Members) :
    Option Members :=
  within false (fun _ inner => addKey path key v inner) header false members

end Members

end GoAtlas.Toml
