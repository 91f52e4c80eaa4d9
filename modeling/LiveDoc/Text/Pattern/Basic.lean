import LiveDoc.Text.CharSet

/-!
# Patterns

Regular patterns over characters, with demands on the place in a text, and whether a pattern occurs
in a text. The text is gone through once, with the rests of the pattern that may follow at each
place.
-/

set_option autoImplicit false
set_option relaxedAutoImplicit false

namespace LiveDoc.Text

/-- A demand on a place in a text: its ends, the ends of lines, which carriage returns may end too,
and the edges of words, whose characters may be `plain`. -/
inductive Look
  | start | finish
  | lineStart (returns : Bool)
  | lineEnd (returns : Bool)
  | edge (plain : Bool)
  | noEdge (plain : Bool)
  | wordStart (plain : Bool)
  | wordEnd (plain : Bool)
  | noWordBefore (plain : Bool)
  | noWordAfter (plain : Bool)
deriving DecidableEq, Repr

namespace Look

def isWord (plain : Bool) : Option Char → Bool
  | some c => (if plain then CharSet.plainWordChars else CharSet.wordChars).has c
  | none => false

/-- Whether a demand is met between two characters; at an end of the text there is none. -/
def holds (before after : Option Char) : Look → Bool
  | .start => before.isNone
  | .finish => after.isNone
  | .lineStart returns =>
    before.isNone || before == some '\n' ||
      (returns && before == some '\r' && after != some '\n')
  | .lineEnd returns =>
    after.isNone ||
      if returns then after == some '\r' || (after == some '\n' && before != some '\r')
      else after == some '\n'
  | .edge plain => isWord plain before != isWord plain after
  | .noEdge plain => isWord plain before == isWord plain after
  | .wordStart plain => !isWord plain before && isWord plain after
  | .wordEnd plain => isWord plain before && !isWord plain after
  | .noWordBefore plain => !isWord plain before
  | .noWordAfter plain => !isWord plain after

end Look

/-- A pattern. The last kind repeats a pattern at least `low` and, if there is an upper bound, at
most `high` times. -/
inductive Pattern
  | empty
  | one (set : CharSet)
  | look (demand : Look)
  | seq (first second : Pattern)
  | alt (left right : Pattern)
  | times (inner : Pattern) (low : Nat) (high : Option Nat)
deriving DecidableEq, Repr

namespace Pattern

/-- Whether a pattern matches nothing but the empty text. -/
def isHollow : Pattern → Bool
  | .empty | .look _ => true
  | .one _ => false
  | .seq p q | .alt p q => p.isHollow && q.isHollow
  | .times p _ high => high = some 0 || p.isHollow

/-- Whether a pattern matches the empty text between two characters. -/
def nullable (before after : Option Char) : Pattern → Bool
  | .empty => true
  | .one _ => false
  | .look demand => demand.holds before after
  | .seq p q => p.nullable before after && q.nullable before after
  | .alt p q => p.nullable before after || q.nullable before after
  | .times p low _ => low = 0 || p.nullable before after

/-- One pattern behind another, kept small. -/
def join : Pattern → Pattern → Pattern
  | .empty, q => q
  | p, .empty => p
  | p, q => .seq p q

/-- The patterns one of which has to follow a character for the whole to match. A repetition whose
inner pattern may be empty at the place can make up for any missing round there. -/
def rests (before : Option Char) (c : Char) : Pattern → List Pattern
  | .empty | .look _ => []
  | .one set => if set.has c then [.empty] else []
  | .seq p q =>
    (p.rests before c).map (join · q) ++
      if p.nullable before (some c) then q.rests before c else []
  | .alt p q => p.rests before c ++ q.rests before c
  | .times p low high =>
    if high = some 0 then []
    else
      let left := if p.nullable before (some c) then 0 else low - 1
      (p.rests before c).map (join · (.times p left (high.map (· - 1))))

def advance (before : Option Char) (c : Char) (ps : List Pattern) : List Pattern :=
  (ps.flatMap (rests before c)).eraseDups

/-- Whether a pattern occurs in what is left of a text, or one of the rests of its earlier places
matches the beginning of it. -/
def occursFrom (p : Pattern) (before : Option Char) (pending : List Pattern) : List Char → Bool
  | [] => (p :: pending).any (nullable before none)
  | c :: cs =>
    (p :: pending).any (nullable before (some c)) ||
      occursFrom p (some c) (advance before c (p :: pending)) cs

def occursIn (p : Pattern) (s : String) : Bool :=
  p.occursFrom none [] s.toList

end Pattern

end LiveDoc.Text
