import LiveDoc.Json.Token
import LiveDoc.Json.Written

/-!
# Reading JSON

A written value is built from tokens with a stack of the arrays and objects that are still open. Of
what is read of it, at most 127 arrays and objects may be nested.
-/

set_option autoImplicit false
set_option relaxedAutoImplicit false

namespace LiveDoc.Json

/-- An array or object that is still open, with what has been read of it, last first. -/
inductive Frame
  | items (done : List Written)
  | members (done : List (Option String × Written)) (name : Option String)

inductive Expected
  | value
  | itemOrEnd
  | nameOrEnd (done : List (Option String × Written))
  | name (done : List (Option String × Written))
  | colon (done : List (Option String × Written)) (name : Option String)
  | separator (value : Written)

/-- The open containers, innermost first, and what has to come next. -/
structure Reading where
  stack : List Frame
  expected : Expected

namespace Reading

def start : Reading := ⟨[], .value⟩

def begin? (stack : List Frame) : Token → Option Reading
  | .text chars => some ⟨stack, .separator (.scalar (chars.map .str))⟩
  | .scalar value => some ⟨stack, .separator (.scalar value)⟩
  | .openArray => some ⟨.items [] :: stack, .itemOrEnd⟩
  | .openObject => some ⟨.members [] none :: stack, .nameOrEnd []⟩
  | _ => none

def step? (r : Reading) (token : Token) : Option Reading :=
  match r.expected, r.stack, token with
  | .value, stack, token => begin? stack token
  | .itemOrEnd, .items _ :: stack, .closeArray => some ⟨stack, .separator (.arr [])⟩
  | .itemOrEnd, stack, token => begin? stack token
  | .nameOrEnd _, .members _ _ :: stack, .closeObject => some ⟨stack, .separator (.obj [])⟩
  | .nameOrEnd done, stack, .text name => some ⟨stack, .colon done name⟩
  | .name done, stack, .text name => some ⟨stack, .colon done name⟩
  | .colon done name, .members _ _ :: stack, .colon => some ⟨.members done name :: stack, .value⟩
  | .separator value, .items done :: stack, .comma => some ⟨.items (value :: done) :: stack, .value⟩
  | .separator value, .items done :: stack, .closeArray =>
    some ⟨stack, .separator (.arr (value :: done).reverse)⟩
  | .separator value, .members done name :: stack, .comma =>
    some ⟨.members done name :: stack, .name ((name, value) :: done)⟩
  | .separator value, .members done name :: stack, .closeObject =>
    some ⟨stack, .separator (.obj ((name, value) :: done).reverse)⟩
  | _, _, _ => none

def finish? (r : Reading) : Option Written :=
  match r.stack, r.expected with
  | [], .separator value => some value
  | _, _ => none

end Reading

def Written.ofText? (s : String) : Option Written := do
  let tokens ← Token.ofText? s
  let reading ← tokens.foldlM Reading.step? Reading.start
  reading.finish?

def maxDepth : Nat := 127

/-- What a reader that looks at a shape reads of a text, with members as often as they are given. -/
def readShape? (shape : Shape) (s : String) : Option Json :=
  (Written.ofText? s).bind fun written => written.read? shape maxDepth

/-- The value that a text spells, in canonical form. -/
def read? (s : String) : Option Json :=
  (readShape? .whole s).map canonical

end LiveDoc.Json
