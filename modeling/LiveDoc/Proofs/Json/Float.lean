import LiveDoc.Proofs.Decimal.Shortest
import LiveDoc.Proofs.Json.Number

/-!
# Binary numbers of JSON

The text of a binary number is a numeral, and it denotes a number: none that is too large, although
it may be another one.
-/

set_option autoImplicit false
set_option relaxedAutoImplicit false

namespace LiveDoc.Json.Number

open LiveDoc.Decimal (Binary64 Digits Quotient)

private theorem word_le_greatest {n : Nat} (h : n < Nat.pow 2 64) :
    (n : ℚ) ≤ 2 ^ 64 ∧ (n : ℚ) ≤ Binary64.greatest := by
  have hcast : (n : ℚ) ≤ 2 ^ 64 := by
    have hpow : Nat.pow 2 64 = 2 ^ 64 := rfl
    rw [hpow] at h
    exact_mod_cast h.le
  refine ⟨hcast, hcast.trans ?_⟩
  calc (2 : ℚ) ^ 64 ≤ (2 ^ 53 - 1) * 2 ^ 12 := by norm_num
    _ ≤ (2 ^ 53 - 1) * (2 : ℚ) ^ (971 : Int) := by
      rw [← zpow_natCast (2 : ℚ) 12]
      gcongr <;> norm_num

private theorem scaled?_eq {negative : Bool} {n : Nat} {e : Int} {x y : Binary64}
    (hx : Binary64.round ⟨n, 1⟩ = some x) (hy : x.scaleTen? e = some y) :
    scaled? negative n e = some (.float (y.withSign negative)) := by
  simp [scaled?, hx, hy]

private theorem exists_scaled_of_nonpos (negative : Bool) {n : Nat} (hn : n < Nat.pow 2 64)
    {e : Int}
    (he : e ≤ 0) : ∃ m, scaled? negative n e = some m := by
  obtain ⟨x, hx, hle⟩ : ∃ x, Binary64.round ⟨n, 1⟩ = some x ∧ x.value ≤ 2 ^ 65 := by
    rcases Nat.eq_zero_or_pos n with rfl | hpos
    · refine ⟨.zero false, rfl, ?_⟩
      simp [Binary64.value, Binary64.zero]
    · obtain ⟨hword, hgreatest⟩ := word_le_greatest hn
      obtain ⟨x, hx, -, hhigh⟩ := Binary64.exists_round_nat hpos hgreatest
      exact ⟨x, hx, by linarith⟩
  obtain ⟨y, hy⟩ := Binary64.exists_scaleTen_neg he hle
  exact ⟨_, scaled?_eq hx hy⟩

private theorem exists_scaled_of_le (negative : Bool) {n k : Nat} (hpos : 1 ≤ n)
    (hn : n < Nat.pow 2 64) (hk : k ≤ 308)
    (h : (n : ℚ) * 10 ^ k * (1 + 1 / 2 ^ 52) ^ 2 ≤ Binary64.greatest) :
    ∃ m, scaled? negative n k = some m := by
  rcases Nat.eq_zero_or_pos k with rfl | hk0
  · exact exists_scaled_of_nonpos negative hn le_rfl
  · obtain ⟨x, hx, -, hhigh⟩ := Binary64.exists_round_nat hpos (word_le_greatest hn).2
    have hproduct : x.value * (10 ^ k * (1 + 1 / 2 ^ 52)) ≤ Binary64.greatest := by
      calc x.value * (10 ^ k * (1 + 1 / 2 ^ 52))
          ≤ n * (1 + 1 / 2 ^ 52) * (10 ^ k * (1 + 1 / 2 ^ 52)) := by gcongr
        _ = (n : ℚ) * 10 ^ k * (1 + 1 / 2 ^ 52) ^ 2 := by ring
        _ ≤ _ := h
    obtain ⟨y, hy⟩ := Binary64.exists_scaleTen_pos ⟨hk0, hk⟩ hproduct
    exact ⟨_, scaled?_eq hx hy⟩

private theorem exists_value?_fraction (negative : Bool) {whole : List Char}
    (hwhole : IsDigits whole)
    (hlength : whole.length ≤ 16) (fraction : List Nat) :
    ∃ m, Numeral.value? ⟨negative, whole.map digitOf, some fraction, none⟩ = some m := by
  have hlt : (whole.map digitOf).foldl (fun n d => n * 10 + d) 0 < Nat.pow 2 64 := by
    rw [foldl_digitOf]
    calc Nat.ofDigitChars 10 whole 0 < (0 + 1) * 10 ^ whole.length :=
          Decimal.ofDigitChars_lt hwhole.2 0
      _ ≤ (0 + 1) * 10 ^ 16 := Nat.mul_le_mul_left _ (Nat.pow_le_pow_right (by decide) hlength)
      _ < Nat.pow 2 64 := by decide
  obtain ⟨⟨-, hword⟩, hunread, -⟩ := gather_bounds fraction hlt
  simp only [Numeral.value?, gather_eq _ _ hlt, Option.getD_some, List.length_nil]
  exact exists_scaled_of_nonpos negative hword (by omega)

private theorem value?_exponent (negative : Bool) {first : Nat} (hfirst : first ≤ 9)
    (fraction : Option (List Nat)) (down : Bool) (size : Nat) :
    Numeral.value? ⟨negative, [first], fraction, some (down, (Nat.toDigits 10 size).map digitOf)⟩ =
      let (significand, unread) := gather first (fraction.getD [])
      let place : Int := 0 - (((fraction.getD []).length : Int) - unread.length)
      if size < Nat.pow 2 31 then
        scaled? negative significand (if down then place - size else place + size)
      else if significand = 0 ∨ down then some (.float (.zero negative))
      else none := by
  have hgather : gather 0 [first] = (first, []) := by
    have hlt : 0 * 10 + first < Nat.pow 2 64 := by
      have hpow : Nat.pow 2 64 = 2 ^ 64 := rfl
      omega
    rw [gather, if_pos hlt, gather, zero_mul, zero_add]
  have hsize : ofDigits ((Nat.toDigits 10 size).map digitOf) = size := by
    rw [ofDigits, foldl_digitOf, Nat.ofDigitChars_ten_toDigits]
  simp only [Numeral.value?, hgather, hsize, List.length_nil, Nat.cast_zero]

private theorem exists_value?_exponent (negative : Bool) {first : Nat}
    (hfirst : 1 ≤ first ∧ first ≤ 9)
    (fraction : Option (List Nat)) {e : Int} (hhigh : e ≤ 308)
    (hle : 0 ≤ e → (((fraction.getD []).foldl (fun n d => n * 10 + d) first : Nat) : ℚ) *
      (10 : ℚ) ^ (e - (fraction.getD []).length) * (1 + 1 / 2 ^ 52) ^ 2 ≤ Binary64.greatest) :
    ∃ m, Numeral.value? ⟨negative, [first], fraction,
      some (decide (e < 0), (Nat.toDigits 10 e.natAbs).map digitOf)⟩ = some m := by
  rw [value?_exponent negative hfirst.2]
  have hlt : first < Nat.pow 2 64 := by
    have hpow : Nat.pow 2 64 = 2 ^ 64 := rfl
    omega
  obtain ⟨⟨hlow, hword⟩, hunread, hgathered⟩ := gather_bounds (fraction.getD []) hlt
  generalize fraction.getD [] = after at hle hlow hword hunread hgathered
  generalize gather first after = gathered at hlow hword hunread hgathered
  obtain ⟨significand, unread⟩ := gathered
  dsimp only at hlow hword hunread hgathered ⊢
  by_cases he : e < 0
  · simp only [he, decide_true, if_true, or_true]
    split
    · exact exists_scaled_of_nonpos negative hword (by omega)
    · exact ⟨_, rfl⟩
  · have hsize : e.natAbs < Nat.pow 2 31 := by
      have hpow : Nat.pow 2 31 = 2 ^ 31 := rfl
      omega
    simp only [he, decide_false, hsize, if_true, Bool.false_eq_true, if_false]
    rcases le_or_gt ((0 : Int) - (after.length - unread.length) + e.natAbs) 0 with hplace | hplace
    · exact exists_scaled_of_nonpos negative hword hplace
    · obtain ⟨k, hk⟩ := Int.eq_ofNat_of_zero_le hplace.le
      rw [hk]
      refine exists_scaled_of_le negative (by omega) hword (by omega) (le_trans ?_ (hle (by omega)))
      have hpower : (10 : ℚ) ^ k = 10 ^ unread.length * (10 : ℚ) ^ (e - after.length) := by
        rw [← zpow_natCast, ← zpow_natCast, ← zpow_add₀ (by norm_num)]
        congr 1
        omega
      have hcast : (significand : ℚ) * 10 ^ unread.length ≤
          (after.foldl (fun n d => n * 10 + d) first : Nat) := by
        exact_mod_cast hgathered
      rw [hpower, ← mul_assoc]
      gcongr

variable {d : Digits}

private theorem layout_positional (hd : d.Proper) (hpoint : -5 < d.point ∧ d.point ≤ 16) :
    ∃ whole fraction, layout d = spell false whole (some fraction) none ∧
      IsWhole whole ∧ IsDigits fraction ∧ whole.length ≤ 16 := by
  obtain ⟨first, rest, hdigits, hfirst⟩ := hd.lead
  have hzeros (k : Nat) : ∀ c ∈ List.replicate k '0', c.isDigit = true := fun c hc =>
    (List.eq_of_mem_replicate hc) ▸ rfl
  have hne : d.digits ≠ [] := by simp [hdigits]
  have hlength : 0 < d.digits.length := List.length_pos_iff.2 hne
  rw [layout]
  simp only [if_pos hpoint]
  split
  · refine ⟨['0'], List.replicate (-d.point).toNat '0' ++ d.digits, ?_,
      ⟨isDigits_singleton rfl, .inl rfl⟩, ⟨by simp [hne], ?_⟩, by simp⟩
    · simp [spell]
    · exact List.forall_mem_append.2 ⟨hzeros _, hd.digits⟩
  split
  · rename_i hpositive hshort
    refine ⟨d.digits ++ List.replicate (d.point - d.digits.length).toNat '0', ['0'], ?_,
      ⟨⟨by simp [hne], ?_⟩, .inr ⟨first, _, by rw [hdigits]; rfl, hfirst⟩⟩,
        isDigits_singleton rfl, ?_⟩
    · simp [spell]
    · exact List.forall_mem_append.2 ⟨hd.digits, hzeros _⟩
    · rw [List.length_append, List.length_replicate]
      omega
  · rename_i hpositive hlong
    have htake : d.digits.take d.point.toNat = first :: rest.take (d.point.toNat - 1) := by
      obtain ⟨k, hk⟩ : ∃ k, d.point.toNat = k + 1 := ⟨d.point.toNat - 1, by omega⟩
      rw [hdigits, hk]
      rfl
    refine ⟨d.digits.take d.point.toNat, d.digits.drop d.point.toNat, ?_,
      ⟨⟨by simp [htake], ?_⟩, ?_⟩,
      ⟨?_, ?_⟩, ?_⟩
    · simp [spell]
    · exact fun c hc => hd.digits c (List.mem_of_mem_take hc)
    · exact .inr ⟨first, _, htake, hfirst⟩
    · rw [ne_eq, List.drop_eq_nil_iff]
      omega
    · exact fun c hc => hd.digits c (List.mem_of_mem_drop hc)
    · rw [List.length_take]
      omega

private theorem layout_scientific (hd : d.Proper) (hpoint : ¬(-5 < d.point ∧ d.point ≤ 16)) :
    ∃ first rest, d.digits = first :: rest ∧ first ≠ '0' ∧
      layout d = spell false [first] (if rest = [] then none else some rest)
        (some (decide (d.point - 1 < 0), Nat.toDigits 10 (d.point - 1).natAbs)) := by
  obtain ⟨first, rest, hdigits, hfirst⟩ := hd.lead
  refine ⟨first, rest, hdigits, hfirst, ?_⟩
  rw [layout]
  simp only [if_neg hpoint, hdigits]
  cases rest <;> simp [spell]

variable {x : Binary64}

private theorem isSome_ofChars?_greatest : ∀ negative : Bool, ∀ i < 5,
    (ofChars? (text (.float ⟨negative, 2 ^ 53 - 1 - i, 971⟩)).toList).isSome = true := by
  decide +kernel

private theorem value_shortest_le (hx : 0 < x.significand) (hfinite : x.IsFinite)
    (hless : x.exponent = 971 → x.significand + 6 ≤ 2 ^ 53) :
    x.shortest.value * (1 + 1 / 2 ^ 52) ^ 2 ≤ Binary64.greatest := by
  have hbound := (Binary64.shortest_bounds hx).2
  have hsignificand : (x.significand : ℚ) + 1 ≤ 2 ^ 53 := by exact_mod_cast hfinite.significand
  suffices hmax : max (((x.significand : ℚ) + 1 / 2) * (2 : ℚ) ^ x.exponent) x.significand ≤
      (2 ^ 53 - 11 / 2) * (2 : ℚ) ^ (971 : Int) by
    calc x.shortest.value * (1 + 1 / 2 ^ 52) ^ 2
        ≤ (2 ^ 53 - 11 / 2) * (2 : ℚ) ^ (971 : Int) * (1 + 1 / 2 ^ 52) ^ 2 := by
          gcongr
          exact hbound.trans hmax
      _ = (2 ^ 53 - 11 / 2) * (1 + 1 / 2 ^ 52) ^ 2 * (2 : ℚ) ^ (971 : Int) := by ring
      _ ≤ Binary64.greatest := by
          rw [Binary64.greatest]
          gcongr
          norm_num
  refine max_le ?_ ?_
  · rcases hfinite.exponent.lt_or_eq with hexponent | hexponent
    · calc ((x.significand : ℚ) + 1 / 2) * (2 : ℚ) ^ x.exponent
          ≤ 2 ^ 53 * (2 : ℚ) ^ (970 : Int) := by
            gcongr
            · linarith
            · norm_num
            · omega
        _ = 2 ^ 52 * (2 : ℚ) ^ (971 : Int) := by
            rw [show (971 : Int) = 1 + 970 by norm_num, zpow_add₀ (by norm_num)]
            ring
        _ ≤ _ := by
            gcongr
            norm_num
    · have hcast : (x.significand : ℚ) + 6 ≤ 2 ^ 53 := by exact_mod_cast hless hexponent
      rw [hexponent]
      gcongr
      linarith
  · calc (x.significand : ℚ) ≤ 2 ^ 53 := by linarith
      _ ≤ (2 ^ 53 - 11 / 2) * (2 : ℚ) ^ (1 : Int) := by norm_num
      _ ≤ _ := by
        gcongr <;> norm_num

private theorem point_le (hx : 0 < x.significand) (hfinite : x.IsFinite) :
    x.shortest.point - 1 ≤ 308 := by
  obtain ⟨hproper, hbound⟩ := Binary64.shortest_bounds hx
  have hsignificand : (x.significand : ℚ) + 1 ≤ 2 ^ 53 := by exact_mod_cast hfinite.significand
  have hpart : (2 : ℚ) ^ 256 ≤ 1158 * 10 ^ 74 := by norm_num
  have hpow : (10 : ℚ) ^ (x.shortest.point - 1) < (10 : ℚ) ^ (309 : Int) := by
    calc (10 : ℚ) ^ (x.shortest.point - 1)
        ≤ max (((x.significand : ℚ) + 1 / 2) * (2 : ℚ) ^ x.exponent) x.significand :=
          hproper.pow_le_value.trans hbound
      _ ≤ 2 ^ 53 * (2 : ℚ) ^ (971 : Int) := by
        refine max_le ?_ ?_
        · have hexponent := hfinite.exponent
          gcongr
          · linarith
          · norm_num
        · calc (x.significand : ℚ) ≤ 2 ^ 53 * (2 : ℚ) ^ (0 : Int) := by
                rw [zpow_zero]
                linarith
            _ ≤ _ := by
                gcongr <;> norm_num
      _ = (2 ^ 256) ^ 4 := by
        rw [← zpow_natCast (2 : ℚ) 53, ← zpow_add₀ (by norm_num), ← pow_mul, ← zpow_natCast]
        norm_num
      _ ≤ (1158 * 10 ^ 74) ^ 4 := by gcongr
      _ < 10 ^ 13 * (10 ^ 74) ^ 4 := by
        rw [mul_pow]
        gcongr
        norm_num
      _ = (10 : ℚ) ^ (309 : Int) := by
        rw [← pow_mul, ← pow_add, ← zpow_natCast]
        norm_num
  have hless := (zpow_lt_zpow_iff_right₀ (by norm_num)).1 hpow
  omega

private theorem toList_text_float {whole : List Char} {fraction : Option (List Char)}
    {exponent : Option (Bool × List Char)}
    (hlayout : layout x.shortest = spell false whole fraction exponent) :
    (text (.float x)).toList = spell x.negative whole fraction exponent := by
  simp [text, hlayout, spell]

private theorem exists_ofChars?_positional {whole fraction : List Char}
    (hlayout : layout x.shortest = spell false whole (some fraction) none) (hwhole : IsWhole whole)
    (hdigits : IsDigits fraction) (hlength : whole.length ≤ 16) :
    ∃ m, ofChars? (text (.float x)).toList = some m := by
  rw [toList_text_float hlayout, ofChars?,
    ofChars?_spell _ hwhole (by simpa using hdigits) (by simp)]
  exact exists_value?_fraction x.negative hwhole.1 hlength _

private theorem value_of_digits {first : Char} {rest : List Char} (h : d.digits = first :: rest) :
    d.value = (((rest.map digitOf).foldl (fun n d => n * 10 + d) (digitOf first) : Nat) : ℚ) *
      (10 : ℚ) ^ (d.point - 1 - (rest.map digitOf).length) := by
  rw [Digits.value, h, Nat.ofDigitChars_cons, foldl_digitOf, mul_zero, zero_add, List.length_map,
    List.length_cons]
  congr 2
  push_cast
  ring

private theorem exists_ofChars?_scientific (hx : 0 < x.significand) (hfinite : x.IsFinite)
    (hpoint : ¬(-5 < x.shortest.point ∧ x.shortest.point ≤ 16))
    (hless : x.exponent = 971 → x.significand + 6 ≤ 2 ^ 53) :
    ∃ m, ofChars? (text (.float x)).toList = some m := by
  have hproper := (Binary64.shortest_bounds hx).1
  obtain ⟨first, rest, hdigits, hne, hlayout⟩ := layout_scientific hproper hpoint
  have hfirst : first.isDigit = true := hproper.digits first (hdigits ▸ List.mem_cons_self)
  have hrest : ∀ c ∈ rest, c.isDigit = true := fun c hc =>
    hproper.digits c (hdigits ▸ List.mem_cons_of_mem _ hc)
  rw [toList_text_float hlayout, ofChars?, ofChars?_spell]
  · have hmap : ((if rest = [] then none else some rest).map (·.map digitOf)).getD [] =
        rest.map digitOf := by
      split <;> simp_all
    have hdigit : 1 ≤ digitOf first ∧ digitOf first ≤ 9 :=
      ⟨Decimal.one_le_digit hfirst hne, Decimal.digit_le hfirst⟩
    refine exists_value?_exponent x.negative hdigit _ (point_le hx hfinite) fun _ => ?_
    rw [hmap, ← value_of_digits hdigits]
    exact value_shortest_le hx hfinite hless
  · exact ⟨isDigits_singleton hfirst, .inl rfl⟩
  · intro ds hds
    split at hds
    · simp at hds
    · obtain rfl := Option.some_inj.1 hds
      exact ⟨‹_›, hrest⟩
  · rintro e he
    obtain rfl := Option.some_inj.1 he
    exact isDigits_toDigits _

private theorem exists_ofChars?_greatest (hfinite : x.IsFinite) (hexponent : x.exponent = 971)
    (hgreat : 2 ^ 53 < x.significand + 6) : ∃ m, ofChars? (text (.float x)).toList = some m := by
  have hsignificand := hfinite.significand
  obtain ⟨negative, significand, exponent⟩ := x
  dsimp only at hexponent hgreat hsignificand
  subst hexponent
  have hall := isSome_ofChars?_greatest negative (2 ^ 53 - 1 - significand) (by omega)
  rw [show 2 ^ 53 - 1 - (2 ^ 53 - 1 - significand) = significand by omega] at hall
  exact Option.isSome_iff_exists.1 hall

theorem exists_ofChars?_text (hfinite : x.IsFinite) :
    ∃ m, ofChars? (text (.float x)).toList = some m := by
  rcases Nat.eq_zero_or_pos x.significand with hzero | hx
  · have hlayout : layout x.shortest = spell false ['0'] (some ['0']) none := by
      rw [Binary64.shortest, if_pos hzero]
      decide
    exact exists_ofChars?_positional hlayout ⟨isDigits_singleton rfl, .inl rfl⟩
      (isDigits_singleton rfl) (by simp)
  by_cases hpoint : -5 < x.shortest.point ∧ x.shortest.point ≤ 16
  · obtain ⟨whole, fraction, hlayout, hwhole, hdigits, hlength⟩ :=
      layout_positional (Binary64.shortest_bounds hx).1 hpoint
    exact exists_ofChars?_positional hlayout hwhole hdigits hlength
  by_cases hless : x.exponent = 971 → x.significand + 6 ≤ 2 ^ 53
  · exact exists_ofChars?_scientific hx hfinite hpoint hless
  · obtain ⟨hexponent, hgreat⟩ := Classical.not_imp.1 hless
    exact exists_ofChars?_greatest hfinite hexponent (Nat.not_le.1 hgreat)

theorem isFinite_of_value? {n : Numeral} (h : n.value? = some (.float x)) : x.IsFinite := by
  obtain ⟨_, heq, -⟩ | heq | ⟨significand, e, hscaled⟩ := value?_cases h
  · simp at heq
  · obtain rfl := Number.float.inj heq
    exact ⟨by norm_num [Binary64.zero], by norm_num [Binary64.zero]⟩
  · simp only [scaled?, Option.bind_eq_bind, Option.bind_eq_some_iff, Option.some.injEq] at hscaled
    obtain ⟨y, hy, z, hz, heq⟩ := hscaled
    obtain ⟨hsignificand, hexponent⟩ := (Binary64.round_bounds Nat.one_pos hy).1.scaleTen hz
    obtain rfl := Number.float.inj heq
    exact ⟨hsignificand, hexponent⟩

end LiveDoc.Json.Number
