import LiveDoc.Json.Basic

/-!
# Written values

Values as a text spells them, nested as deeply as it likes and with members as often as they are
given, and what of such a value is read. A reader that looks only at the members it knows passes the
others over: they have to be well formed, but need not mean anything.
-/

set_option autoImplicit false
set_option relaxedAutoImplicit false

namespace LiveDoc.Json

/-- A value as it is spelled. A numeral or a quoted text, also one that names a member, may mean
nothing. -/
inductive Written where
  | scalar (value : Option Json)
  | arr (items : List Written)
  | obj (members : List (Option String × Written))

/-- Which parts of a value a reader looks at: all of it; the members of a record, or as many items
in their place; the items of an array; the values of an object. What does not have such parts is
looked at as a whole. -/
inductive Shape where
  | whole
  | record (fields : List (String × Shape))
  | items (each : Shape)
  | entries (each : Shape)

namespace Shape

/-- The shape of a record whose fields are looked at as a whole. -/
def fields (names : List String) : Shape :=
  .record (names.map fun name => (name, .whole))

def item (place : Nat) : Shape → Shape
  | .record fields => (fields[place]?.map Prod.snd).getD .whole
  | .items each => each
  | .whole | .entries _ => .whole

/-- The shape of the member with a name; none if it is passed over. -/
def member? (name : String) : Shape → Option Shape
  | .record fields => (fields.find? (·.1 = name)).map Prod.snd
  | .entries each => some each
  | .whole | .items _ => some .whole

end Shape

namespace Written

mutual

/-- What is read of a value, if all of that means something. At most `room` arrays and objects may
be nested in it. -/
def read? : Written → Shape → (room : Nat) → Option Json
  | .scalar value, _, _ => value
  | .arr items, shape, room + 1 => (readItems? items shape 0 room).map .arr
  | .obj members, shape, room + 1 => (readMembers? members shape room).map .obj
  | .arr _, _, 0 | .obj _, _, 0 => none
termination_by structural w => w

/-- What is read of the items of an array, from the one at `place` on. -/
def readItems? : List Written → Shape → (place room : Nat) → Option (List Json)
  | [], _, _, _ => some []
  | item :: rest, shape, place, room => do
    let value ← item.read? (shape.item place) room
    let values ← readItems? rest shape (place + 1) room
    some (value :: values)
termination_by structural items => items

def readMembers? : List (Option String × Written) → Shape → (room : Nat) →
    Option (List (String × Json))
  | [], _, _ => some []
  | (none, _) :: _, _, _ => none
  | (some name, written) :: rest, shape, room =>
    match shape.member? name with
    | none => readMembers? rest shape room
    | some inner => do
      let value ← written.read? inner room
      let members ← readMembers? rest shape room
      some ((name, value) :: members)
termination_by structural members => members

end

end Written

end LiveDoc.Json
