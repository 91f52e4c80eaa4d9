/-!
# Outcomes

Computations that end with a value or with a failure: when a chain of them ends with a value.
-/

set_option autoImplicit false
set_option relaxedAutoImplicit false

namespace LiveDoc

variable {ε δ α β : Type}

theorem bind_eq_ok_iff {x : Except ε α} {f : α → Except ε β} {b : β} :
    (x >>= f) = .ok b ↔ ∃ a, x = .ok a ∧ f a = .ok b := by
  cases x <;> simp [bind, Except.bind]

theorem bind_eq_error_iff {x : Except ε α} {f : α → Except ε β} {e : ε} :
    (x >>= f) = .error e ↔ x = .error e ∨ ∃ a, x = .ok a ∧ f a = .error e := by
  cases x <;> simp [bind, Except.bind]

theorem bind_ok_eq_error_iff {x : Except ε α} {f : α → β} {e : ε} :
    (x >>= fun a => .ok (f a)) = .error e ↔ x = .error e := by
  cases x <;> simp [bind, Except.bind]

theorem mapError_eq_ok_iff {x : Except ε α} {f : ε → δ} {a : α} :
    x.mapError f = .ok a ↔ x = .ok a := by
  cases x <;> constructor <;> rintro ⟨⟩ <;> rfl

theorem mapError_ok (f : ε → δ) (a : α) : (Except.ok a : Except ε α).mapError f = .ok a := rfl

theorem mapError_bind (x : Except ε α) (f : α → Except ε β) (e : ε → δ) :
    (x >>= f).mapError e = x.mapError e >>= fun a => (f a).mapError e := by
  cases x <;> rfl

theorem bind_ne_error {x : Except ε α} {f : α → Except ε β} {e : ε} (hx : x ≠ .error e)
    (hf : ∀ a, f a ≠ .error e) : (x >>= f) ≠ .error e := by
  cases x with
  | error e' => simpa [bind, Except.bind] using hx
  | ok a => exact hf a

theorem map_eq_ok_iff {x : Except ε α} {f : α → β} {b : β} :
    x.map f = .ok b ↔ ∃ a, x = .ok a ∧ f a = b := by
  cases x <;> simp [Except.map]

theorem map_eq_error_iff {x : Except ε α} {f : α → β} {e : ε} :
    x.map f = .error e ↔ x = .error e := by
  cases x <;> simp [Except.map]

/-- What a computation ends with, changed: its value by one map and its failure by another. -/
def mapEnds (e : ε → δ) (f : α → β) (x : Except ε α) : Except δ β := (x.map f).mapError e

theorem mapEnds_ok (e : ε → δ) (f : α → β) (a : α) :
    mapEnds e f (.ok a : Except ε α) = .ok (f a) := rfl

theorem mapEnds_bind {γ η : Type} {e : ε → δ} {g : α → β} {h : γ → η} {x : Except ε α}
    {f : α → Except ε γ} {f' : β → Except δ η} (hstep : ∀ a, f' (g a) = mapEnds e h (f a)) :
    mapEnds e g x >>= f' = mapEnds e h (x >>= f) := by
  cases x with
  | error failure => rfl
  | ok a => exact hstep a

theorem toOption_eq_some_iff {x : Except ε α} {a : α} : x.toOption = some a ↔ x = .ok a := by
  cases x <;> simp [Except.toOption]

end LiveDoc
