import LiveDoc.Proofs.Json.Float
import LiveDoc.Proofs.Json.Reading

/-!
# Reading JSON again

A value that has been read can be read from its text, although its binary numbers may come out as
others.
-/

set_option autoImplicit false
set_option relaxedAutoImplicit false

namespace LiveDoc.Json

theorem Number.IsDenoted.exists_ofChars?_text {n : Number} (h : n.IsDenoted) :
    ∃ m, Number.ofChars? n.text.toList = some m := by
  obtain ⟨numeral, hvalue⟩ := h
  cases n with
  | int value => exact ⟨_, Number.ofChars?_text (Number.isWord_of_value? hvalue)⟩
  | float x => exact Number.exists_ofChars?_text (Number.isFinite_of_value? hvalue)

theorem exists_read?_text_obj {s : String} {members : Table Json}
    (h : read? s = some (.obj members)) :
    ∃ found, read? (Json.obj members).text = some (.obj found) := by
  obtain ⟨-, hfits, hdenoted⟩ := of_read? h
  have hread := read?_text (f := fun n => (Number.ofChars? n.text.toList).getD n) hfits
    fun n hn => by
      obtain ⟨m, hm⟩ := (hdenoted n hn).exists_ofChars?_text
      rw [hm, Option.getD_some]
  exact ⟨_, hread⟩

end LiveDoc.Json
