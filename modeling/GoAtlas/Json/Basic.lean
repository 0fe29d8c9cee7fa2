/-!
# JSON values

A JSON value keeps the members of its objects in order, and a name that is given more than once has
a member for each time. Whole numbers from zero to the largest of 64 bits are numbers; any other
number is only kept as its text, since nothing here counts with it. So is what stands deeper than a
reader goes: it can be passed over, but nothing is decoded from it.

The second half of the module reads values apart: structures, their fields that must be there, may
be there or have a default, lists, and tagged values. A structure is an object, or the list of its
fields in order. A tagged value is a string, or an object with one member whose name is the tag.
-/

namespace GoAtlas

/-- A JSON value. -/
inductive Json where
  | null
  | bool (b : Bool)
  | nat (n : Nat)
  /-- A part of a text as it is written: a number that is not a whole number of 64 bits, or a list or
  an object that stands too deep. -/
  | verbatim (text : String)
  | str (s : String)
  | arr (items : List Json)
  | obj (members : List (String × Json))
  deriving Inhabited

namespace Json

mutual

/-- The number of lists and objects around the innermost value. -/
def depth : Json → Nat
  | arr items => depthOfItems items + 1
  | obj members => depthOfMembers members + 1
  | _ => 0

/-- The largest depth of some values. -/
def depthOfItems : List Json → Nat
  | [] => 0
  | v :: rest => max v.depth (depthOfItems rest)

/-- The largest depth of the values of some members. -/
def depthOfMembers : List (String × Json) → Nat
  | [] => 0
  | (_, v) :: rest => max v.depth (depthOfMembers rest)

end

mutual

/-- A value with the members of every object in the order of their names. -/
def sortMembers : Json → Json
  | arr items => arr (sortItems items)
  | obj members => obj ((sortEach members).mergeSort fun a b => decide (a.1 ≤ b.1))
  | v => v

/-- Some values with the members of every object in the order of their names. -/
def sortItems : List Json → List Json
  | [] => []
  | v :: rest => v.sortMembers :: sortItems rest

/-- Some members, not moved, with the members inside their values in the order of their names. -/
def sortEach : List (String × Json) → List (String × Json)
  | [] => []
  | (name, v) :: rest => (name, v.sortMembers) :: sortEach rest

end

/-! ## Building values -/

/-- A value that may be absent. -/
def ofOption {α : Type} (encode : α → Json) : Option α → Json
  | none => null
  | some a => encode a

/-- A list of values. -/
def ofList {α : Type} (encode : α → Json) (as : List α) : Json :=
  arr (as.map encode)

/-- A value under a tag. -/
def tagged (tag : String) (v : Json) : Json :=
  obj [(tag, v)]

/-- A member that is left out when its list is empty. -/
def memberUnlessEmpty {α : Type} (name : String) (encode : α → Json) :
    List α → List (String × Json)
  | [] => []
  | a :: rest => [(name, ofList encode (a :: rest))]

/-! ## Reading values apart -/

/-- The member of an object with a name. -/
def member? (name : String) : Json → Option Json
  | obj members => members.lookup name
  | _ => none

/-- The fields of a structure as the members of an object. An object must not give a field twice,
and may have other members. A list must give the fields in order; the last `omissible` fields are
those that it may leave out. -/
def fields? (names : List String) (omissible : Nat) : Json → Option Json
  | obj members =>
    if ((members.map Prod.fst).filter (names.contains ·)).Nodup then some (obj members) else none
  | arr items =>
    if names.length ≤ items.length + omissible ∧ items.length ≤ names.length then
      some (obj (names.zip items))
    else none
  | _ => none

/-- The string that a value is. -/
def str? : Json → Option String
  | str s => some s
  | _ => none

/-- The truth value that a value is. -/
def bool? : Json → Option Bool
  | bool b => some b
  | _ => none

/-- The whole number that a value is. -/
def nat? : Json → Option Nat
  | nat n => some n
  | _ => none

/-- The list that a value is, when each of its items decodes. -/
def list? {α : Type} (decode : Json → Option α) : Json → Option (List α)
  | arr items => items.mapM decode
  | _ => none

/-- Nothing for `null`, and otherwise what the value decodes to. -/
def option? {α : Type} (decode : Json → Option α) : Json → Option (Option α)
  | null => some none
  | v => (decode v).map some

/-- A member that must be there. -/
def required {α : Type} (v : Json) (name : String) (decode : Json → Option α) : Option α :=
  (v.member? name).bind decode

/-- A member that may be missing or `null`. -/
def optional {α : Type} (v : Json) (name : String) (decode : Json → Option α) :
    Option (Option α) :=
  match v.member? name with
  | none => some none
  | some w => option? decode w

/-- A member that has a default when it is missing. -/
def withDefault {α : Type} (v : Json) (name : String) (default : α) (decode : Json → Option α) :
    Option α :=
  match v.member? name with
  | none => some default
  | some w => decode w

/-- The tag of a tagged value, with the value under it if there is one. -/
def tag? : Json → Option (String × Option Json)
  | str tag => some (tag, none)
  | obj [(tag, v)] => some (tag, some v)
  | _ => none

/-- Whether nothing stands under a tag: no value, or `null`. -/
def isUnit : Option Json → Bool
  | none | some null => true
  | _ => false

end Json

end GoAtlas
