import LiveDoc.Json.Printer
import LiveDoc.Json.Token
import LiveDoc.Proofs.Json.Value

/-!
# Tokens of written JSON

The tokens that a value is written in, and that the scanner finds them in its text.
-/

set_option autoImplicit false
set_option relaxedAutoImplicit false

namespace LiveDoc.Json

mutual

def tokens : Json → List Token
  | .null => [.scalar (some .null)]
  | .bool b => [.scalar (some (.bool b))]
  | .num n => [.scalar (some (.num n))]
  | .str s => [.text (some s)]
  | .arr [] => [.openArray, .closeArray]
  | .arr (item :: rest) => .openArray :: (item.tokens ++ tokensOfItems rest)
  | .obj [] => [.openObject, .closeObject]
  | .obj ((name, value) :: rest) =>
    .openObject :: .text (some name) :: .colon :: (value.tokens ++ tokensOfMembers rest)
termination_by structural j => j

/-- The tokens of the items after the first, and of the end of the array. -/
def tokensOfItems : List Json → List Token
  | [] => [.closeArray]
  | item :: rest => .comma :: (item.tokens ++ tokensOfItems rest)
termination_by structural items => items

/-- The tokens of the members after the first, and of the end of the object. -/
def tokensOfMembers : List (String × Json) → List Token
  | [] => [.closeObject]
  | (name, value) :: rest =>
    .comma :: .text (some name) :: .colon :: (value.tokens ++ tokensOfMembers rest)
termination_by structural members => members

end

namespace Token

/-- A text that is at its end or goes on with what ends a value. -/
def Ends (rest : List Char) : Prop := ∀ c ∈ rest.head?, c = ',' ∨ c = ']' ∨ c = '\x7d'

variable {rest : List Char}

private theorem pushCode_control {code : Nat} (h : code < 32) (codes : List Nat) :
    pushCode code codes = code :: codes := by
  cases codes with
  | nil => rfl
  | cons high codes => rw [pushCode, if_neg (by omega)]

private theorem number?_hexDigit {code : Nat} (h : code < 32) :
    Text.number? 16 ['0', '0', hexDigit (code / 16), hexDigit (code % 16)] = some code := by
  have hall : ∀ code < 32,
      Text.number? 16 ['0', '0', hexDigit (code / 16), hexDigit (code % 16)] = some code := by
    decide +kernel
  exact hall code h

private theorem scan_escaped (codes : List Nat) {letter meant : Char}
    (hletter : letter ≠ 'u') (hmeant : ofEscape? letter = some meant) (rest : List Char) :
    scan (.quoted codes) ('\\' :: letter :: rest) = scan (.quoted (meant.toNat :: codes)) rest := by
  rw [scan, if_neg (by decide), if_pos rfl, scan, if_neg hletter, hmeant]
  rfl

private theorem scan_escapeChar (codes : List Nat) (c : Char) (rest : List Char) :
    scan (.quoted codes) (escapeChar c ++ rest) = scan (.quoted (c.toNat :: codes)) rest := by
  have hcode (code : Nat) (h : c.toNat = code) : c = Char.ofNat code := by
    rw [← h, Char.ofNat_toNat]
  unfold escapeChar
  split
  · subst_vars; exact scan_escaped codes (by decide) (by decide) rest
  split
  · subst_vars; exact scan_escaped codes (by decide) (by decide) rest
  split
  · subst_vars; exact scan_escaped codes (by decide) (by decide) rest
  split
  · subst_vars; exact scan_escaped codes (by decide) (by decide) rest
  split
  · subst_vars; exact scan_escaped codes (by decide) (by decide) rest
  split
  · rename_i h; rw [hcode 8 h]; exact scan_escaped codes (by decide) (by decide) rest
  split
  · rename_i h; rw [hcode 12 h]; exact scan_escaped codes (by decide) (by decide) rest
  split
  · rename_i h
    have hnumber := number?_hexDigit h
    rw [List.cons_append, scan, if_neg (by decide), if_pos rfl, List.cons_append, scan, if_pos rfl]
    simp [scan, hnumber, pushCode_control h]
  · rename_i hquote hslash _ _ _ _ _ hcontrol
    rw [List.cons_append, List.nil_append, scan, if_neg hquote, if_neg hslash, if_neg hcontrol]

private theorem scan_quoted (codes : List Nat) (cs rest : List Char) :
    scan (.quoted codes) (cs.flatMap escapeChar ++ '"' :: rest) =
      (scan .between rest).map (ofCodes ((cs.map Char.toNat).reverse ++ codes) :: ·) := by
  induction cs generalizing codes with
  | nil => simp [scan]
  | cons c cs ih =>
    rw [List.flatMap_cons, List.append_assoc, scan_escapeChar, ih]
    simp

private theorem isSurrogate_toNat (c : Char) : isSurrogate c.toNat = false := by
  have hvalid := c.valid
  simp only [UInt32.isValidChar, Nat.isValidChar] at hvalid
  simp only [isSurrogate, Bool.and_eq_false_iff, decide_eq_false_iff_not]
  have hnat : c.toNat = c.val.toNat := rfl
  omega

private theorem ofCodes_toNat (s : String) :
    ofCodes (s.toList.map Char.toNat).reverse = .text (some s) := by
  have hno : ((s.toList.map Char.toNat).reverse.any isSurrogate) = false := by
    simp [isSurrogate_toNat]
  have hchars : (s.toList.map Char.toNat).map Char.ofNat = s.toList := by
    simp [Function.comp_def, Char.ofNat_toNat]
  simp [ofCodes, hno, hchars]

theorem scan_quote (s : String) (rest : List Char) :
    scan .between ((quote s).toList ++ rest) = (scan .between rest).map (.text (some s) :: ·) := by
  have hquote : (quote s).toList ++ rest = '"' :: (s.toList.flatMap escapeChar ++ '"' :: rest) := by
    simp [quote]
  have hstart : start? '"' = some (none, .quoted []) := rfl
  rw [hquote, scan]
  simp [hstart, scan_quoted, ofCodes_toNat]

private theorem ends_char {c : Char} (h : Ends (c :: rest)) :
    c.isAlpha = false ∧ isNumeral c = false := by
  rcases h c rfl with rfl | rfl | rfl <;> decide

private theorem scan_word (letters cs : List Char) (hcs : ∀ c ∈ cs, c.isAlpha = true) :
    scan (.word letters) (cs ++ rest) = scan (.word (cs.reverse ++ letters)) rest := by
  induction cs generalizing letters with
  | nil => rfl
  | cons c cs ih =>
    rw [List.forall_mem_cons] at hcs
    rw [List.cons_append, scan, if_pos hcs.1, ih _ hcs.2]
    simp

private theorem scan_word_end (letters : List Char) (hrest : Ends rest) {token : Token}
    (htoken : ofWord? letters.reverse = some token) :
    scan (.word letters) rest = (scan .between rest).map (token :: ·) := by
  cases rest with
  | nil => simp [scan, htoken]
  | cons c rest =>
    simp only [scan, (ends_char hrest).1, Bool.false_eq_true, if_false, htoken]
    cases start? c with
    | none => rfl
    | some begun => simp [Option.map_bind]

private theorem scan_numeral (chars cs : List Char) (hcs : ∀ c ∈ cs, isNumeral c = true) :
    scan (.numeral chars) (cs ++ rest) = scan (.numeral (cs.reverse ++ chars)) rest := by
  induction cs generalizing chars with
  | nil => rfl
  | cons c cs ih =>
    rw [List.forall_mem_cons] at hcs
    rw [List.cons_append, scan, if_pos hcs.1, ih _ hcs.2]
    simp

private theorem scan_numeral_end (chars : List Char) (hrest : Ends rest) {token : Token}
    (htoken : ofNumeral? chars.reverse = some token) :
    scan (.numeral chars) rest = (scan .between rest).map (token :: ·) := by
  cases rest with
  | nil => simp [scan, htoken]
  | cons c rest =>
    simp only [scan, (ends_char hrest).2, Bool.false_eq_true, if_false, htoken]
    cases start? c with
    | none => rfl
    | some begun => simp [Option.map_bind]

private theorem start?_of_isDigit {c : Char} (h : c.isDigit = true) :
    start? c = some (none, .numeral [c]) := by
  have hspace : isSpace c = false := by
    cases hspace : isSpace c with
    | false => rfl
    | true =>
      simp only [isSpace, Bool.or_eq_true, decide_eq_true_eq] at hspace
      rcases hspace with ((rfl | rfl) | rfl) | rfl <;> exact absurd h (by decide)
  have hquote : c ≠ '"' := by
    rintro rfl
    exact absurd h (by decide)
  have hlower : c.isLower = false := by
    have hrange : c.isLower = (decide (c.val ≥ 'a'.val) && decide (c.val ≤ 'z'.val)) := rfl
    rw [hrange]
    simp only [Char.isDigit, Bool.and_eq_true, decide_eq_true_eq, ge_iff_le,
      UInt32.le_iff_toNat_le, Bool.and_eq_false_iff, decide_eq_false_iff_not] at h ⊢
    have hnine : '9'.val.toNat = 57 := rfl
    have ha : 'a'.val.toNat = 97 := rfl
    omega
  rw [start?, if_neg (by simp [hspace]), if_neg hquote, if_neg (by simp [hlower]),
    if_pos (.inr h)]

private theorem isNumeral_of_isDigit {c : Char} (h : c.isDigit = true) : isNumeral c = true := by
  simp [isNumeral, h]

private theorem split_of_digits? {cs rest : List Char} {ds : List Nat}
    (h : Number.digits? cs = some (ds, rest)) :
    ∃ c front, cs = c :: front ++ rest ∧ ∀ d ∈ c :: front, d.isDigit = true := by
  have hsplit := List.takeWhile_append_dropWhile (p := Char.isDigit) (l := cs)
  have hall := List.all_eq_true.1 (List.all_takeWhile (p := Char.isDigit) (l := cs))
  unfold Number.digits? at h
  split at h
  · simp at h
  · rename_i hne
    obtain ⟨-, rfl⟩ := Prod.mk.inj (Option.some.inj h)
    obtain ⟨c, front, hfront⟩ := List.exists_cons_of_ne_nil hne
    exact ⟨c, front, by rw [← hfront, hsplit], hfront ▸ hall⟩

/-- Whether nothing but characters of numerals is found before the rest of a text. -/
private def NumeralUpTo (cs rest : List Char) : Prop :=
  ∃ front, cs = front ++ rest ∧ ∀ d ∈ front, isNumeral d = true

private theorem NumeralUpTo.trans {cs mid rest : List Char} (h : NumeralUpTo cs mid)
    (hmid : NumeralUpTo mid rest) : NumeralUpTo cs rest := by
  obtain ⟨first, rfl, hfirst⟩ := h
  obtain ⟨second, rfl, hsecond⟩ := hmid
  exact ⟨first ++ second, by simp, List.forall_mem_append.2 ⟨hfirst, hsecond⟩⟩

private theorem NumeralUpTo.cons {c : Char} {cs rest : List Char} (hc : isNumeral c = true)
    (h : NumeralUpTo cs rest) : NumeralUpTo (c :: cs) rest := by
  obtain ⟨front, rfl, hfront⟩ := h
  exact ⟨c :: front, rfl, List.forall_mem_cons.2 ⟨hc, hfront⟩⟩

private theorem numeralUpTo_of_digits? {cs rest : List Char} {ds : List Nat}
    (h : Number.digits? cs = some (ds, rest)) : NumeralUpTo cs rest := by
  obtain ⟨c, front, rfl, hdigits⟩ := split_of_digits? h
  exact ⟨c :: front, rfl, fun d hd => isNumeral_of_isDigit (hdigits d hd)⟩

private theorem numeralUpTo_of_fraction? {cs rest : List Char} {fraction : Option (List Nat)}
    (h : Number.fraction? cs = some (fraction, rest)) : NumeralUpTo cs rest := by
  unfold Number.fraction? at h
  split at h
  · obtain ⟨⟨ds, after⟩, hdigits, heq⟩ := Option.map_eq_some_iff.1 h
    obtain ⟨-, rfl⟩ := Prod.mk.inj heq
    exact (numeralUpTo_of_digits? hdigits).cons (by decide)
  · obtain ⟨-, rfl⟩ := Prod.mk.inj (Option.some.inj h)
    exact ⟨[], rfl, by simp⟩

private theorem numeralUpTo_of_exponent? {cs rest : List Char} {exponent : Option (Bool × List Nat)}
    (h : Number.exponent? cs = some (exponent, rest)) : NumeralUpTo cs rest := by
  have hmapped {cs : List Char} {down : Bool} (h : (Number.digits? cs).map
      (fun taken => (some (down, taken.1), taken.2)) = some (exponent, rest)) :
      NumeralUpTo cs rest := by
    obtain ⟨⟨ds, after⟩, hdigits, heq⟩ := Option.map_eq_some_iff.1 h
    obtain ⟨-, rfl⟩ := Prod.mk.inj heq
    exact numeralUpTo_of_digits? hdigits
  unfold Number.exponent? at h
  split at h
  · split at h
    · rename_i c after he
      have hletter : isNumeral c = true := by rcases he with rfl | rfl <;> decide
      split at h
      · exact ((hmapped h).cons (by decide)).cons hletter
      · exact ((hmapped h).cons (by decide)).cons hletter
      · exact (hmapped h).cons hletter
    · obtain ⟨-, rfl⟩ := Prod.mk.inj (Option.some.inj h)
      exact ⟨[], rfl, by simp⟩
  · obtain ⟨-, rfl⟩ := Prod.mk.inj (Option.some.inj h)
    exact ⟨[], rfl, by simp⟩

private theorem isNumeral_of_ofChars? {cs : List Char} {n : Number.Numeral}
    (h : Number.Numeral.ofChars? cs = some n) :
    ∃ c rest, cs = c :: rest ∧ (c = '-' ∨ c.isDigit = true) ∧ ∀ d ∈ rest, isNumeral d = true := by
  unfold Number.Numeral.ofChars? at h
  split at h
  rename_i negative unsigned heq
  obtain ⟨c, rest, rfl, hc, hrest⟩ : ∃ c rest, unsigned = c :: rest ∧ c.isDigit = true ∧
      ∀ d ∈ rest, isNumeral d = true := by
    simp only [Option.bind_eq_bind, Option.bind_eq_some_iff] at h
    obtain ⟨⟨whole, afterWhole⟩, hwhole, h⟩ := h
    dsimp only at h
    split at h
    · simp at h
    obtain ⟨⟨fraction, afterFraction⟩, hfraction, ⟨exponent, afterExponent⟩, hexponent, h⟩ := by
      simpa only [Option.bind_eq_some_iff] using h
    dsimp only at h
    split at h
    · rename_i hempty
      obtain rfl := List.isEmpty_iff.1 hempty
      obtain ⟨c, front, rfl, hdigits⟩ := split_of_digits? hwhole
      obtain ⟨tail, rfl, htail⟩ :=
        (numeralUpTo_of_fraction? hfraction).trans (numeralUpTo_of_exponent? hexponent)
      rw [List.forall_mem_cons] at hdigits
      refine ⟨c, front ++ tail, by simp, hdigits.1, List.forall_mem_append.2 ⟨?_, htail⟩⟩
      exact fun d hd => isNumeral_of_isDigit (hdigits.2 d hd)
    · simp at h
  split at heq
  · obtain ⟨-, rfl⟩ := Prod.mk.inj heq
    exact ⟨'-', c :: rest, rfl, .inl rfl, List.forall_mem_cons.2 ⟨isNumeral_of_isDigit hc, hrest⟩⟩
  · obtain ⟨-, rfl⟩ := Prod.mk.inj heq
    exact ⟨c, rest, rfl, .inr hc, hrest⟩

theorem scan_number {n m : Number} (h : Number.ofChars? n.text.toList = some m)
    (hrest : Ends rest) :
    scan .between (n.text.toList ++ rest) =
      (scan .between rest).map (.scalar (some (.num m)) :: ·) := by
  obtain ⟨numeral, hread, hvalue⟩ := Option.bind_eq_some_iff.1 h
  obtain ⟨c, cs, hcs, hfirst, hnumeral⟩ := isNumeral_of_ofChars? hread
  have hstart : start? c = some (none, .numeral [c]) := by
    rcases hfirst with rfl | hdigit
    · rfl
    · exact start?_of_isDigit hdigit
  have htoken : ofNumeral? (cs.reverse ++ [c]).reverse = some (.scalar (some (.num m))) := by
    rw [List.reverse_append, List.reverse_reverse, List.reverse_singleton, List.singleton_append,
      ← hcs, ofNumeral?, hread, Option.map_some, hvalue, Option.map_some]
  have hscan := scan_numeral_end (cs.reverse ++ [c]) hrest htoken
  rw [← scan_numeral [c] cs hnumeral] at hscan
  rw [hcs, List.cons_append, scan, hstart]
  simpa using hscan

private theorem scan_scalar {c : Char} {cs : List Char} {token : Token}
    (hstart : start? c = some (none, .word [c])) (hcs : ∀ d ∈ cs, d.isAlpha = true)
    (htoken : ofWord? (c :: cs) = some token) (hrest : Ends rest) :
    scan .between (c :: cs ++ rest) = (scan .between rest).map (token :: ·) := by
  have hword : ofWord? (cs.reverse ++ [c]).reverse = some token := by simpa using htoken
  have hscan := scan_word_end (cs.reverse ++ [c]) hrest hword
  rw [← scan_word [c] cs hcs] at hscan
  rw [List.cons_append, scan, hstart]
  simpa using hscan

private theorem scan_mark {c : Char} {token : Token} (h : start? c = some (some token, .between)) :
    scan .between (c :: rest) = (scan .between rest).map (token :: ·) := by
  simp only [scan, h, Option.bind_eq_bind, Option.bind_some]
  cases scan .between rest <;> rfl

end Token

open Token (scan Ends)

private theorem ends_textItems (items : List Json) (rest : List Char) :
    Ends ((textItems items).toList ++ rest) := by
  cases items <;> simp [textItems, Ends]

private theorem ends_textMembers (members : List (String × Json)) (rest : List Char) :
    Ends ((textMembers members).toList ++ rest) := by
  cases members <;> simp [textMembers, Ends]

variable {f : Number → Number}

mutual

/-- In the text of a value the scanner finds the tokens of the value, with the numbers that the
texts of its numbers denote. -/
theorem scan_text : ∀ (j : Json) (rest : List Char),
    (∀ n ∈ j.numbers, Number.ofChars? n.text.toList = some (f n)) → Ends rest →
      scan .between (j.text.toList ++ rest) = (scan .between rest).map ((j.renumber f).tokens ++ ·)
  | .null, rest, _, hrest => Token.scan_scalar rfl (List.all_eq_true.1 (by decide)) rfl hrest
  | .bool true, rest, _, hrest => Token.scan_scalar rfl (List.all_eq_true.1 (by decide)) rfl hrest
  | .bool false, rest, _, hrest => Token.scan_scalar rfl (List.all_eq_true.1 (by decide)) rfl hrest
  | .num n, rest, hnumbers, hrest => by
    rw [text, renumber, tokens]
    exact Token.scan_number (hnumbers n (by simp [numbers])) hrest
  | .str s, rest, _, _ => by
    rw [text, renumber, tokens]
    exact Token.scan_quote s rest
  | .arr [], rest, _, _ => by
    have htext : (text (.arr [])).toList ++ rest = '[' :: ']' :: rest := by simp [text]
    rw [htext, Token.scan_mark rfl, Token.scan_mark rfl, renumber, renumberItems, tokens,
      Option.map_map]
    rfl
  | .arr (item :: items), rest, hnumbers, _ => by
    simp only [numbers, numbersOfItems, List.forall_mem_append] at hnumbers
    have htext : (text (.arr (item :: items))).toList ++ rest =
        '[' :: (item.text.toList ++ ((textItems items).toList ++ rest)) := by
      simp [text]
    rw [htext, Token.scan_mark rfl, scan_text item _ hnumbers.1 (ends_textItems items rest),
      scan_textItems items rest hnumbers.2, renumber, renumberItems, tokens]
    simp [Function.comp_def]
  | .obj [], rest, _, _ => by
    have htext : (text (.obj [])).toList ++ rest = '\x7b' :: '\x7d' :: rest := by simp [text]
    rw [htext, Token.scan_mark rfl, Token.scan_mark rfl, renumber, renumberMembers, tokens,
      Option.map_map]
    rfl
  | .obj ((name, value) :: members), rest, hnumbers, _ => by
    simp only [numbers, numbersOfMembers, List.forall_mem_append] at hnumbers
    have htext : (text (.obj ((name, value) :: members))).toList ++ rest =
        '\x7b' :: ((quote name).toList ++
          ':' :: (value.text.toList ++ ((textMembers members).toList ++ rest))) := by
      simp [text]
    rw [htext, Token.scan_mark rfl, Token.scan_quote, Token.scan_mark rfl,
      scan_text value _ hnumbers.1 (ends_textMembers members rest),
      scan_textMembers members rest hnumbers.2, renumber, renumberMembers, tokens]
    simp [Function.comp_def]
termination_by structural j => j

theorem scan_textItems : ∀ (items : List Json) (rest : List Char),
    (∀ n ∈ numbersOfItems items, Number.ofChars? n.text.toList = some (f n)) →
      scan .between ((textItems items).toList ++ rest) =
        (scan .between rest).map (tokensOfItems (renumberItems f items) ++ ·)
  | [], rest, _ => by
    have htext : (textItems []).toList ++ rest = ']' :: rest := by simp [textItems]
    rw [htext, Token.scan_mark rfl, renumberItems, tokensOfItems]
    rfl
  | item :: items, rest, hnumbers => by
    simp only [numbersOfItems, List.forall_mem_append] at hnumbers
    have htext : (textItems (item :: items)).toList ++ rest =
        ',' :: (item.text.toList ++ ((textItems items).toList ++ rest)) := by
      simp [textItems]
    rw [htext, Token.scan_mark rfl, scan_text item _ hnumbers.1 (ends_textItems items rest),
      scan_textItems items rest hnumbers.2, renumberItems, tokensOfItems]
    simp [Function.comp_def]
termination_by structural items => items

theorem scan_textMembers : ∀ (members : List (String × Json)) (rest : List Char),
    (∀ n ∈ numbersOfMembers members, Number.ofChars? n.text.toList = some (f n)) →
      scan .between ((textMembers members).toList ++ rest) =
        (scan .between rest).map (tokensOfMembers (renumberMembers f members) ++ ·)
  | [], rest, _ => by
    have htext : (textMembers []).toList ++ rest = '\x7d' :: rest := by simp [textMembers]
    rw [htext, Token.scan_mark rfl, renumberMembers, tokensOfMembers]
    rfl
  | (name, value) :: members, rest, hnumbers => by
    simp only [numbersOfMembers, List.forall_mem_append] at hnumbers
    have htext : (textMembers ((name, value) :: members)).toList ++ rest =
        ',' :: ((quote name).toList ++
          ':' :: (value.text.toList ++ ((textMembers members).toList ++ rest))) := by
      simp [textMembers]
    rw [htext, Token.scan_mark rfl, Token.scan_quote, Token.scan_mark rfl,
      scan_text value _ hnumbers.1 (ends_textMembers members rest),
      scan_textMembers members rest hnumbers.2, renumberMembers, tokensOfMembers]
    simp [Function.comp_def]
termination_by structural members => members

end

end LiveDoc.Json
