import LiveDoc.Node.Check
import LiveDoc.Run.Function

/-!
# Registries

The functions that calls can name. A name is registered once, and only if it is well formed.
-/

set_option autoImplicit false
set_option relaxedAutoImplicit false

namespace LiveDoc.Run

abbrev Registry (σ : Type) := Table (HostFunction σ)

inductive RegistryFailure
  | invalidName (name : String)
  | alreadyRegistered (name : String)
  | invalidSchema
deriving DecidableEq, Repr

def RegistryFailure.message? : RegistryFailure → Option String
  | .invalidName name => some ("Invalid function name '" ++ name ++ "': expected (module:)?name")
  | .alreadyRegistered name => some ("Function '" ++ name ++ "' is already registered")
  | .invalidSchema => none

namespace Registry

variable {σ : Type}

def register (r : Registry σ) (name : String) (f : HostFunction σ) :
    Except RegistryFailure (Registry σ) :=
  if !isFunctionName name then .error (.invalidName name)
  else if r.has name then .error (.alreadyRegistered name)
  else .ok (r.put name f)

/-- The function of a name that goes, and the registry that is left. -/
def unregister (r : Registry σ) (name : String) : Option (HostFunction σ) × Registry σ :=
  (r.get? name, r.erase name)

end Registry

end LiveDoc.Run
