import LiveDoc.Json.Number
import LiveDoc.Proofs.Decimal.Digits

/-!
# Integers of JSON

The integers that numerals denote fit a word of 64 bits, signed or unsigned, and the digits of such
an integer are a numeral that denotes it.
-/

set_option autoImplicit false
set_option relaxedAutoImplicit false

namespace LiveDoc.Json.Number

/-- Whether a number is the integer of a word of 64 bits, or the zero with a minus sign as which
`-0` is read. -/
def IsWord : Number → Prop
  | .int n => -(Nat.pow 2 63 : Nat) ≤ n ∧ n < (Nat.pow 2 64 : Nat)
  | .float x => x = .zero true

def IsDigits (cs : List Char) : Prop := cs ≠ [] ∧ ∀ c ∈ cs, c.isDigit = true

theorem isDigits_singleton {c : Char} (h : c.isDigit = true) : IsDigits [c] :=
  ⟨List.cons_ne_nil _ _, List.forall_mem_singleton.2 h⟩

theorem isDigits_toDigits (n : Nat) : IsDigits (Nat.toDigits 10 n) :=
  ⟨Nat.toDigits_ne_nil, fun _ hc => Nat.isDigit_of_mem_toDigits (by omega) (by omega) hc⟩

theorem IsDigits.digits? {cs : List Char} (h : IsDigits cs) (rest : List Char)
    (hrest : rest.takeWhile Char.isDigit = []) :
    digits? (cs ++ rest) = some (cs.map digitOf, rest) := by
  have hdrop : rest.dropWhile Char.isDigit = rest := by
    cases rest with
    | nil => rfl
    | cons c rest =>
      have hc : c.isDigit = false := by simpa [List.takeWhile_cons] using hrest
      rw [List.dropWhile_cons_of_neg (by simp [hc])]
  rw [Number.digits?, List.takeWhile_append_of_pos h.2, List.dropWhile_append_of_pos h.2, hrest,
    List.append_nil, hdrop]
  cases cs with
  | nil => exact absurd rfl h.1
  | cons c cs => rfl

theorem foldl_digitOf (cs : List Char) (n : Nat) :
    (cs.map digitOf).foldl (fun n d => n * 10 + d) n = Nat.ofDigitChars 10 cs n := by
  have hsame : (fun (n : Nat) (c : Char) => n * 10 + digitOf c) =
      fun n c => 10 * n + (c.toNat - '0'.toNat) := by
    funext n c
    rw [digitOf, Nat.mul_comm]
  rw [List.foldl_map, hsame, Nat.ofDigitChars_eq_foldl]

private theorem le_foldl_digits (ds : List Nat) (n : Nat) :
    n * 10 ^ ds.length ≤ ds.foldl (fun n d => n * 10 + d) n := by
  induction ds generalizing n with
  | nil => simp
  | cons d ds ih =>
    rw [List.foldl_cons, List.length_cons]
    calc n * 10 ^ (ds.length + 1) = n * 10 * 10 ^ ds.length := by ring
      _ ≤ (n * 10 + d) * 10 ^ ds.length := Nat.mul_le_mul_right _ (Nat.le_add_right _ _)
      _ ≤ _ := ih _

theorem gather_eq (ds : List Nat) (n : Nat)
    (h : ds.foldl (fun n d => n * 10 + d) n < Nat.pow 2 64) :
    gather n ds = (ds.foldl (fun n d => n * 10 + d) n, []) := by
  induction ds generalizing n with
  | nil => rfl
  | cons d ds ih =>
    rw [List.foldl_cons] at h
    have hle := le_foldl_digits ds (n * 10 + d)
    have hfits : n * 10 + d < Nat.pow 2 64 :=
      (Nat.le_mul_of_pos_right (n * 10 + d) (Nat.pow_pos (by decide))).trans_lt (hle.trans_lt h)
    rw [gather, if_pos hfits, ih _ h, List.foldl_cons]

theorem gather_bounds (ds : List Nat) {n : Nat} (h : n < Nat.pow 2 64) :
    (n ≤ (gather n ds).1 ∧ (gather n ds).1 < Nat.pow 2 64) ∧
      (gather n ds).2.length ≤ ds.length ∧
      (gather n ds).1 * 10 ^ (gather n ds).2.length ≤ ds.foldl (fun n d => n * 10 + d) n := by
  induction ds generalizing n with
  | nil => simpa [gather] using h
  | cons d ds ih =>
    rw [gather]
    split
    · rename_i hfits
      obtain ⟨⟨hlow, hhigh⟩, hlength, hle⟩ := ih hfits
      exact ⟨⟨by omega, hhigh⟩, by rw [List.length_cons]; omega, hle⟩
    · exact ⟨⟨le_rfl, h⟩, le_rfl, le_foldl_digits _ _⟩

/-- The characters of a numeral, by its sign, its digits before and after the point and its
exponent. -/
def spell (negative : Bool) (whole : List Char) (fraction : Option (List Char))
    (exponent : Option (Bool × List Char)) : List Char :=
  (if negative then ['-'] else []) ++ (whole ++ (fraction.elim [] ('.' :: ·) ++
    exponent.elim [] fun (down, ds) => 'e' :: (if down then '-' else '+') :: ds))

def IsWhole (cs : List Char) : Prop :=
  IsDigits cs ∧ (cs.length = 1 ∨ ∃ first rest, cs = first :: rest ∧ first ≠ '0')

theorem isWhole_toDigits (n : Nat) : IsWhole (Nat.toDigits 10 n) := by
  refine ⟨isDigits_toDigits n, ?_⟩
  rcases Nat.eq_zero_or_pos n with rfl | hn
  · exact .inl (by simp [Nat.toDigits_zero])
  · exact .inr (Decimal.toDigits_eq_cons hn)

private theorem fraction?_spell {fraction : Option (List Char)}
    (hfraction : ∀ ds ∈ fraction, IsDigits ds)
    {rest : List Char} (hrest : ∀ c ∈ rest.head?, c = 'e') :
    fraction? (fraction.elim [] ('.' :: ·) ++ rest) =
      some (fraction.map (·.map digitOf), rest) := by
  have htake : rest.takeWhile Char.isDigit = [] := by
    cases rest with
    | nil => rfl
    | cons c rest =>
      obtain rfl := hrest c rfl
      rfl
  cases fraction with
  | some ds => simp [fraction?, (hfraction ds rfl).digits? rest htake]
  | none =>
    cases rest with
    | nil => rfl
    | cons c rest =>
      obtain rfl := hrest c rfl
      rfl

private theorem exponent?_spell {exponent : Option (Bool × List Char)}
    (hexponent : ∀ e ∈ exponent, IsDigits e.2) :
    exponent? (exponent.elim [] fun (down, ds) => 'e' :: (if down then '-' else '+') :: ds) =
      some (exponent.map fun e => (e.1, e.2.map digitOf), []) := by
  cases exponent with
  | none => rfl
  | some e =>
    obtain ⟨down, ds⟩ := e
    have hdigits := (hexponent _ rfl).digits? [] rfl
    rw [List.append_nil] at hdigits
    cases down <;> simp [exponent?, hdigits]

theorem ofChars?_spell (negative : Bool) {whole : List Char} {fraction : Option (List Char)}
    {exponent : Option (Bool × List Char)} (hwhole : IsWhole whole)
    (hfraction : ∀ ds ∈ fraction, IsDigits ds) (hexponent : ∀ e ∈ exponent, IsDigits e.2) :
    Numeral.ofChars? (spell negative whole fraction exponent) =
      some ⟨negative, whole.map digitOf, fraction.map (·.map digitOf),
        exponent.map fun e => (e.1, e.2.map digitOf)⟩ := by
  obtain ⟨hdigits, hlead⟩ := hwhole
  generalize hpower :
    exponent.elim [] (fun (down, ds) => 'e' :: (if down then '-' else '+') :: ds) =
    power
  have hhead : ∀ c ∈ power.head?, c = 'e' := by
    rw [← hpower]
    cases exponent <;> simp
  have hread := hdigits.digits? (fraction.elim [] ('.' :: ·) ++ power) (by
    cases fraction with
    | some ds => rfl
    | none =>
      cases power with
      | nil => rfl
      | cons c power =>
        obtain rfl := hhead c rfl
        rfl)
  have hlead : ¬((whole.map digitOf).head? = some 0 ∧ (whole.map digitOf).length ≠ 1) := by
    rintro ⟨hzero, hlong⟩
    rcases hlead with hone | ⟨first, rest, rfl, hfirst⟩
    · exact hlong (by simpa using hone)
    · have hdigit := Decimal.one_le_digit (hdigits.2 first List.mem_cons_self) hfirst
      have hzero : first.toNat - '0'.toNat = 0 := Option.some_inj.1 hzero
      omega
  have hexponent := exponent?_spell hexponent
  rw [hpower] at hexponent
  rw [spell, hpower]
  unfold Numeral.ofChars?
  cases negative with
  | true =>
    simp only [if_true, List.singleton_append, hread, Option.bind_eq_bind, Option.bind_some,
      if_neg hlead, fraction?_spell hfraction hhead, hexponent]
    rfl
  | false =>
    obtain ⟨c, cs, hcs⟩ := List.exists_cons_of_ne_nil hdigits.1
    have hsign : c ≠ '-' := by
      rintro rfl
      exact absurd (hdigits.2 '-' (hcs ▸ List.mem_cons_self)) (by decide)
    rw [hcs] at hread hlead ⊢
    rw [List.cons_append] at hread ⊢
    simp only [Bool.false_eq_true, if_false, List.nil_append]
    split
    · rename_i heq
      exact absurd (List.cons.inj heq).1 hsign
    · simp only [hread, Option.bind_eq_bind, Option.bind_some, if_neg hlead,
        fraction?_spell hfraction hhead, hexponent]
      rfl

theorem value?_of_ofInteger? {n : Numeral} {significand : Nat}
    (hgather : gather 0 n.whole = (significand, [])) (hfraction : n.fraction = none)
    (hexponent : n.exponent = none) : n.value? = ofInteger? n.negative significand := by
  simp [Numeral.value?, hgather, hfraction, hexponent]

/-- What a numeral denotes is an integer of 64 bits, a zero with a sign or a binary number of a
significand and a power of ten. -/
theorem value?_cases {n : Numeral} {m : Number} (h : n.value? = some m) :
    (∃ value, m = .int value ∧ IsWord (.int value)) ∨
      m = .float (.zero n.negative) ∨
        ∃ significand e, scaled? n.negative significand e = some m := by
  have hlt := (gather_bounds n.whole (n := 0) (by decide)).1.2
  unfold Numeral.value? at h
  generalize gather 0 n.whole = gathered at h hlt
  obtain ⟨significand, left⟩ := gathered
  simp only [] at h hlt
  split at h
  · split at h
    · unfold ofInteger? at h
      split at h
      · rename_i hnegative
        rw [← hnegative] at h
        split at h
        · exact .inr (.inl (Option.some.inj h).symm)
        split at h
        · obtain rfl := Option.some.inj h
          refine .inl ⟨_, rfl, ?_⟩
          simp only [IsWord]
          have hpow : Nat.pow 2 63 = 2 ^ 63 := rfl
          omega
        · exact .inr (.inr ⟨_, _, h⟩)
      · obtain rfl := Option.some.inj h
        refine .inl ⟨_, rfl, ?_⟩
        simp only [IsWord]
        have hpow : Nat.pow 2 64 = 2 ^ 64 := rfl
        omega
    · exact .inr (.inr ⟨_, _, h⟩)
  split at h
  · exact .inr (.inr ⟨_, _, h⟩)
  split at h
  · exact .inr (.inr ⟨_, _, h⟩)
  split at h
  · exact .inr (.inl (Option.some.inj h).symm)
  · simp at h

theorem isWord_of_value? {n : Numeral} {value : Int} (h : n.value? = some (.int value)) :
    IsWord (.int value) := by
  obtain ⟨_, heq, hword⟩ | heq | ⟨significand, e, hscaled⟩ := value?_cases h
  · exact heq ▸ hword
  · simp at heq
  · simp only [scaled?, Option.bind_eq_bind, Option.bind_eq_some_iff] at hscaled
    obtain ⟨x, -, y, -, heq⟩ := hscaled
    simp at heq

theorem ofChars?_text {n : Number} (h : n.IsWord) : ofChars? n.text.toList = some n := by
  cases n with
  | int n =>
    have htext : (text (.int n)).toList =
        spell (decide (n < 0)) (Nat.toDigits 10 n.natAbs) none none := by
      simp [text, spell]
    rw [ofChars?, htext, ofChars?_spell _ (isWhole_toDigits _) (by simp) (by simp),
      Option.bind_some]
    obtain ⟨hlow, hhigh⟩ := h
    have hdigits : ((Nat.toDigits 10 n.natAbs).map digitOf).foldl (fun n d => n * 10 + d) 0 =
        n.natAbs := by
      rw [foldl_digitOf, Nat.ofDigitChars_ten_toDigits]
    have hgather := gather_eq ((Nat.toDigits 10 n.natAbs).map digitOf) 0 (by
      rw [hdigits]
      have hpow : Nat.pow 2 63 = 2 ^ 63 ∧ Nat.pow 2 64 = 2 ^ 64 := ⟨rfl, rfl⟩
      omega)
    rw [hdigits] at hgather
    rw [value?_of_ofInteger? hgather rfl rfl, ofInteger?]
    by_cases hn : n < 0
    · have hpow : Nat.pow 2 63 = 2 ^ 63 := rfl
      have hzero : ¬ n.natAbs = 0 := by omega
      have hle : n.natAbs ≤ Nat.pow 2 63 := by omega
      have habs : -(n.natAbs : Int) = n := by omega
      rw [if_pos (decide_eq_true hn), if_neg hzero, if_pos hle, habs]
    · have habs : (n.natAbs : Int) = n := by omega
      rw [if_neg (by simpa using hn), habs]
  | float x =>
    obtain rfl : x = .zero true := h
    decide +kernel

end LiveDoc.Json.Number
