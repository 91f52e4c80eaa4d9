import LiveDoc.Markup.Element
import LiveDoc.Markup.Token
import LiveDoc.Text.Blank

/-!
# Events

Markup as a sequence of events, with names, attribute values and text in plain form, and the tree
that such a sequence describes. The tree is built with a stack of the elements that are still open.
-/

set_option autoImplicit false
set_option relaxedAutoImplicit false

namespace LiveDoc.Markup

/-- An event: a tag with its attributes, character data, or something without content. -/
inductive Event
  | opens (name : String) (attributes : List (String × String))
  | empty (name : String) (attributes : List (String × String))
  | closes (name : String)
  | text (chars : String)
  | literal (chars : String)
  | skipped
deriving DecidableEq, Repr

namespace Event

/-- The event of a tag: a name up to the first blank, and attributes. -/
def ofTag (inside : List Char) (single : Bool) (start : Nat) : Except Fault Event :=
  let name := String.ofList (inside.takeWhile (!isSpace ·))
  match Attribute.read (inside.dropWhile (!isSpace ·)) with
  | .ok attributes => .ok (if single then .empty name attributes else .opens name attributes)
  | .error .form => .error (.badAttribute start)
  | .error .reference => .error (.badReference start)

def ofToken (start : Nat) : Token → Except Fault Event
  | .text chars =>
    match unescapeChars? chars with
    | some plain => .ok (.text (String.ofList plain))
    | none => .error (.badReference start)
  | .literal chars => .ok (.literal (String.ofList chars))
  | .tag inside single => ofTag inside single start
  | .closing name => .ok (.closes (String.ofList name))
  | .skipped => .ok .skipped

/-- Events up to the first fault, if there is one. -/
structure Sequence where
  events : List (Placed Event)
  fault : Option Fault

/-- The events of placed tokens, which may end at a fault themselves. -/
def ofTokens (atEnd : Option Fault) : List (Placed Token) → Sequence
  | [] => ⟨[], atEnd⟩
  | token :: rest =>
    match ofToken token.start token.value with
    | .ok event =>
      let after := ofTokens atEnd rest
      { after with events := ⟨event, token.start, token.stop⟩ :: after.events }
    | .error fault => ⟨[], some fault⟩

end Event

/-- An element that is still open, its items last first. -/
structure OpenElement where
  name : String
  attributes : List (String × String)
  items : List (Item Element)

def OpenElement.close (e : OpenElement) : Element :=
  ⟨e.name, e.attributes, e.items.reverse⟩

/-- The elements that are open, innermost first, and the root once it is complete. -/
structure Building where
  stack : List OpenElement
  root : Option Element

namespace Building

def start : Building := ⟨[], none⟩

def add (item : Item Element) : List OpenElement → Option (List OpenElement)
  | [] => none
  | e :: rest => some ({ e with items := item :: e.items } :: rest)

/-- Puts a complete element where it belongs; outside of all others it is the root. -/
def attach (b : Building) (e : Element) (place : Nat) : Except Fault Building :=
  match add (.element e) b.stack, b.root with
  | some stack, _ => .ok { b with stack }
  | none, none => .ok { b with root := some e }
  | none, some _ => .error (.secondRoot place)

def step (b : Building) (placed : Placed Event) : Except Fault Building :=
  match placed.value with
  | .opens name attributes => .ok { b with stack := ⟨name, attributes, []⟩ :: b.stack }
  | .empty name attributes => b.attach ⟨name, attributes, []⟩ placed.start
  | .closes name =>
    match b.stack with
    | e :: outer =>
      if e.name = name then { b with stack := outer }.attach e.close placed.start
      else .error (.illFormed placed.stop)
    | [] => .error (.illFormed placed.stop)
  | .text chars =>
    match add (.text chars) b.stack with
    | some stack => .ok { b with stack }
    | none => if Text.isAllBlank chars then .ok b else .error (.textOutsideRoot placed.start)
  | .literal chars =>
    match add (.literal chars) b.stack with
    | some stack => .ok { b with stack }
    | none => .error (.sectionOutsideRoot placed.start)
  | .skipped => .ok b

def finish (b : Building) (stop : Nat) : Except Fault Element :=
  match b.stack, b.root with
  | e :: _, _ => .error (.unclosed e.name stop)
  | [], some root => .ok root
  | [], none => .error .noRoot

end Building

namespace Element

/-- The element that a sequence of events describes. A fault of the tree found before the sequence
breaks off counts first. -/
def ofEvents (sequence : Event.Sequence) (stop : Nat) : Except Fault Element := do
  let built ← sequence.events.foldlM Building.step Building.start
  match sequence.fault with
  | some fault => .error fault
  | none => built.finish stop

/-- The single element of which a text is the markup. -/
def ofText (s : String) : Except Fault Element :=
  let cut := Token.ofText s
  let stop := (cut.tokens.getLast?.map Placed.stop).getD 0
  ofEvents (Event.ofTokens cut.fault cut.tokens) stop

mutual

/-- The events of an element in order; an element without items is an opening and a closing tag. -/
def events : Element → List Event
  | ⟨name, attributes, items⟩ =>
    .opens name attributes :: (eventsOfItems items ++ [.closes name])
termination_by structural e => e

def eventsOfItems : List (Item Element) → List Event
  | [] => []
  | .text chars :: rest => .text chars :: eventsOfItems rest
  | .literal chars :: rest => .literal chars :: eventsOfItems rest
  | .element inner :: rest => inner.events ++ eventsOfItems rest
termination_by structural items => items

end

end Element

end LiveDoc.Markup
