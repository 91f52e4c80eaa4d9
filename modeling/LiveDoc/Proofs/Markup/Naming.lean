import LiveDoc.Proofs.Markup.Elements
import LiveDoc.Proofs.Markup.Scanning

/-!
# Names that are read

The attributes that a text gives to its elements: no name stands twice in a tag, and names without
quotes are such that they can be written again.
-/

set_option autoImplicit false
set_option relaxedAutoImplicit false

namespace LiveDoc.Markup

open Token (marksAfter? nextMark)

def Unquoted (name : String) : Prop := '"' ∉ name.toList ∧ '\'' ∉ name.toList

instance (name : String) : Decidable (Unquoted name) := inferInstanceAs (Decidable (_ ∧ _))

namespace Attribute

/-- A name that has been read is the one that a mode is about, as far as the mode knows it. -/
def Mode.Begins (name : String) : Mode → Prop
  | .before => True
  | .name chars => chars.reverse <+: name.toList
  | .named begun | .signed begun | .value begun _ _ => begun = name

theorem readFrom_keeps {mode : Mode} {done attributes : List (String × String)} {cs : List Char}
    (h : readFrom mode done cs = .ok attributes) :
    (∀ a ∈ done, a ∈ attributes) ∧
      (mode = .before ∨ ∃ a ∈ attributes, mode.Begins a.1) := by
  fun_induction readFrom mode done cs with
  | case1 done =>
    obtain rfl := Except.ok.inj h
    simp
  | case3 done c rest hspace ih => exact ⟨(ih h).1, .inl rfl⟩
  | case4 done c rest hspace ih => exact ⟨(ih h).1, .inl rfl⟩
  | case6 chars done rest name hnew ih =>
    obtain ⟨hdone, ⟨⟨⟩⟩ | ⟨a, ha, hname⟩⟩ := ih h
    have hname : String.ofList chars.reverse = a.1 := hname
    exact ⟨hdone, .inr ⟨a, ha, by simp [Mode.Begins, ← hname]⟩⟩
  | case7 chars done c rest name hsign hspace ih =>
    obtain ⟨hdone, ⟨⟨⟩⟩ | ⟨a, ha, hname⟩⟩ := ih h
    have hname : String.ofList chars.reverse = a.1 := hname
    exact ⟨hdone, .inr ⟨a, ha, by simp [Mode.Begins, ← hname]⟩⟩
  | case8 chars done c rest hsign hspace ih =>
    obtain ⟨hdone, ⟨⟨⟩⟩ | ⟨a, ha, hname⟩⟩ := ih h
    exact ⟨hdone, .inr ⟨a, ha, .trans (by simp) hname⟩⟩
  | case16 name chars done c rest plain hplain ih =>
    obtain ⟨hdone, -⟩ := ih h
    rw [List.forall_mem_cons] at hdone
    exact ⟨hdone.2, .inr ⟨_, hdone.1, rfl⟩⟩
  | case9 | case11 | case13 | case14 | case18 =>
    rename_i ih
    obtain ⟨hdone, ⟨⟨⟩⟩ | ⟨a, ha, hname⟩⟩ := ih h
    exact ⟨hdone, .inr ⟨a, ha, hname⟩⟩
  | _ => simp at h

/-- The scanner stands in quotes in a value only, and the name at hand can be written so far. -/
def Mode.Fits (mark : Option Char) : Mode → Prop
  | .before => mark = none
  | .name chars => mark = none ∧ isAttributeName (String.ofList chars.reverse) = true
  | .named begun | .signed begun => mark = none ∧ isAttributeName begun = true
  | .value begun quote _ => mark = some quote ∧ isAttributeName begun = true

private theorem isAttributeName_push {chars : List Char} {c : Char}
    (h : isAttributeName (String.ofList chars.reverse) = true) (hsign : c ≠ '=')
    (hspace : isSpace c = false) (hinner : isInner c = true) :
    isAttributeName (String.ofList (c :: chars).reverse) = true := by
  unfold isAttributeName at h ⊢
  simp only [String.toList_ofList, List.reverse_cons] at h ⊢
  cases hrev : chars.reverse with
  | nil => simp [hrev] at h
  | cons d ds =>
    simp only [hrev, Bool.and_eq_true, List.all_eq_true] at h
    simp only [List.cons_append, List.all_cons, List.all_append, Bool.and_eq_true,
      List.all_eq_true]
    simp_all

private theorem marksAfter?_cons {c : Char} {rest : List Char}
    (h : (marksAfter? none (c :: rest)).isSome) :
    c ≠ '>' ∧ (marksAfter? (nextMark none c) rest).isSome := by
  rw [marksAfter?] at h
  split at h
  · simp at h
  · rename_i hc
    exact ⟨by simpa using hc, h⟩

private theorem nextMark_of_not_quote {c : Char} (h : c ≠ '"' ∧ c ≠ '\'') :
    nextMark none c = none := by
  simp [nextMark, h]

private theorem not_quote_of_isSpace {c : Char} (h : isSpace c = true) : c ≠ '"' ∧ c ≠ '\'' := by
  constructor <;> rintro rfl <;> exact absurd h (by decide)

private theorem not_quote_of_readFrom {c : Char} {chars rest : List Char}
    {done attributes : List (String × String)}
    (h : readFrom (.name (c :: chars)) done rest = .ok attributes)
    (hunquoted : ∀ a ∈ attributes, Unquoted a.1) : c ≠ '"' ∧ c ≠ '\'' := by
  obtain ⟨-, ⟨⟨⟩⟩ | ⟨a, ha, hname⟩⟩ := readFrom_keeps h
  have hmem : c ∈ a.1.toList := List.IsPrefix.mem (by simp) hname
  obtain ⟨hdouble, hsingle⟩ := hunquoted a ha
  exact ⟨fun heq => hdouble (heq ▸ hmem), fun heq => hsingle (heq ▸ hmem)⟩

theorem isAttributeName_of_readFrom {mode : Mode} {done attributes : List (String × String)}
    {cs : List Char} {mark : Option Char} (h : readFrom mode done cs = .ok attributes)
    (hunquoted : ∀ a ∈ attributes, Unquoted a.1) (hmarks : (marksAfter? mark cs).isSome)
    (hfits : mode.Fits mark) (hdone : ∀ a ∈ done, isAttributeName a.1 = true) :
    ∀ a ∈ attributes, isAttributeName a.1 = true := by
  fun_induction readFrom mode done cs generalizing mark with
  | case1 done =>
    obtain rfl := Except.ok.inj h
    simpa using hdone
  | case3 done c rest hspace ih =>
    obtain rfl : mark = none := hfits
    have hmark := nextMark_of_not_quote (not_quote_of_isSpace hspace)
    exact ih h (marksAfter?_cons hmarks).2 hmark hdone
  | case4 done c rest hspace ih =>
    obtain rfl : mark = none := hfits
    obtain ⟨hclose, hrest⟩ := marksAfter?_cons hmarks
    have hquote := not_quote_of_readFrom h hunquoted
    refine ih h hrest ⟨nextMark_of_not_quote hquote, ?_⟩ hdone
    simp [isAttributeName, isInner, hspace, hclose, hquote]
  | case6 chars done rest name hnew =>
    rename_i ih
    obtain ⟨rfl, hname⟩ := hfits
    exact ih h (marksAfter?_cons hmarks).2 ⟨rfl, hname⟩ hdone
  | case7 chars done c rest name hsign hspace =>
    rename_i ih
    obtain ⟨rfl, hname⟩ := hfits
    have hmark := nextMark_of_not_quote (not_quote_of_isSpace hspace)
    exact ih h (marksAfter?_cons hmarks).2 ⟨hmark, hname⟩ hdone
  | case8 chars done c rest hsign hspace ih =>
    obtain ⟨rfl, hname⟩ := hfits
    obtain ⟨hclose, hrest⟩ := marksAfter?_cons hmarks
    have hquote := not_quote_of_readFrom h hunquoted
    have hinner : isInner c = true := by simp [isInner, hclose, hquote]
    exact ih h hrest ⟨nextMark_of_not_quote hquote,
      isAttributeName_push hname hsign (by simpa using hspace) hinner⟩ hdone
  | case9 name done c rest hspace ih | case13 name done c rest hspace ih =>
    obtain ⟨rfl, hname⟩ := hfits
    have hmark := nextMark_of_not_quote (not_quote_of_isSpace hspace)
    exact ih h (marksAfter?_cons hmarks).2 ⟨hmark, hname⟩ hdone
  | case11 name done rest hnew hspace ih =>
    obtain ⟨rfl, hname⟩ := hfits
    exact ih h (marksAfter?_cons hmarks).2 ⟨rfl, hname⟩ hdone
  | case14 name done c rest hspace hquote ih =>
    obtain ⟨rfl, hname⟩ := hfits
    have hmark : nextMark none c = some c := by simp [nextMark, hquote]
    exact ih h (marksAfter?_cons hmarks).2 ⟨hmark, hname⟩ hdone
  | case16 name chars done c rest plain hplain ih =>
    obtain ⟨rfl, hname⟩ := hfits
    have hmark : nextMark (some c) c = none := by simp [nextMark]
    rw [marksAfter?, if_neg (by simp)] at hmarks
    exact ih h hmarks hmark (List.forall_mem_cons.2 ⟨hname, hdone⟩)
  | case18 name quote chars done c rest hother ih =>
    obtain ⟨rfl, hname⟩ := hfits
    have hmark : nextMark (some quote) c = some quote := by simp [nextMark, hother]
    rw [marksAfter?, if_neg (by simp)] at hmarks
    exact ih h hmarks ⟨hmark, hname⟩ hdone
  | _ => simp at h

/-- The name of the attribute at hand, once its sign has been read, is not one of those before. -/
def Mode.IsNew (done : List (String × String)) : Mode → Prop
  | .before | .name _ | .named _ => True
  | .signed begun | .value begun _ _ => taken begun done = false

theorem nodup_of_readFrom {mode : Mode} {done attributes : List (String × String)} {cs : List Char}
    (h : readFrom mode done cs = .ok attributes) (hnew : mode.IsNew done)
    (hdone : (done.map Prod.fst).Nodup) : (attributes.map Prod.fst).Nodup := by
  fun_induction readFrom mode done cs with
  | case1 done =>
    obtain rfl := Except.ok.inj h
    rw [List.map_reverse]
    exact (List.reverse_perm _).nodup_iff.2 hdone
  | case3 | case4 | case7 | case8 | case9 =>
    rename_i ih
    exact ih h trivial hdone
  | case6 =>
    rename_i htaken ih
    exact ih h (by simpa [Mode.IsNew] using htaken) hdone
  | case11 =>
    rename_i htaken _ ih
    exact ih h (by simpa [Mode.IsNew] using htaken) hdone
  | case13 | case14 | case18 =>
    rename_i ih
    exact ih h hnew hdone
  | case16 name chars done c rest plain hplain ih =>
    refine ih h trivial (List.nodup_cons.2 ⟨fun hmem => ?_, hdone⟩)
    obtain ⟨a, ha, hname⟩ := List.mem_map.1 hmem
    simp only [Mode.IsNew, taken, List.any_eq_false, decide_eq_true_eq] at hnew
    exact hnew a ha hname
  | _ => simp at h

end Attribute

namespace Token

/-- A tag does not end among its own characters. -/
def Sealed : Token → Prop
  | .tag inside _ => (marksAfter? none inside).isSome
  | .text _ | .literal _ | .closing _ | .skipped => True

/-- The scanner stands in the quotes that the characters of the tag at hand open. -/
def Mode.Sealed : Mode → Prop
  | .tag seen mark => marksAfter? none seen.reverse = some mark
  | _ => True

private theorem marksAfter?_concat {cs : List Char} {c : Char} {mark : Option Char}
    (h : marksAfter? none cs = some mark) (hc : ¬ (mark.isNone = true ∧ c = '>')) :
    marksAfter? none (cs ++ [c]) = some (nextMark mark c) := by
  rw [marksAfter?_append, h, Option.bind_some, marksAfter?, if_neg hc, marksAfter?]

private theorem sealed_ofTag {seen : List Char} {mark : Option Char}
    (h : marksAfter? none seen.reverse = some mark) : (ofTag seen).Sealed := by
  unfold ofTag
  split
  · rename_i seen
    rw [List.reverse_cons, marksAfter?_append, Option.bind_eq_some_iff] at h
    obtain ⟨before, hbefore, -⟩ := h
    simp [Token.Sealed, hbefore]
  · simp [Token.Sealed, h]

private theorem sealed_ofInstruction? {seen : List Char} {token : Token}
    (h : ofInstruction? seen = some token) : token.Sealed := by
  unfold ofInstruction? at h
  split at h
  · obtain rfl := Option.some_inj.1 h
    trivial
  · simp at h

private theorem sealed_ofComment? {seen : List Char} {token : Token}
    (h : ofComment? seen = some token) : token.Sealed := by
  unfold ofComment? at h
  split at h
  · obtain rfl := Option.some_inj.1 h
    trivial
  · simp at h

private theorem sealed_ofLiteral? {seen : List Char} {token : Token}
    (h : ofLiteral? seen = some token) : token.Sealed := by
  unfold ofLiteral? at h
  split at h
  · obtain rfl := Option.some_inj.1 h
    trivial
  · simp at h

private theorem sealed_ofDeclaration {stop : Nat} {seen : List Char} {token : Token}
    (h : ofDeclaration stop seen = .ok token) : token.Sealed := by
  simp only [ofDeclaration] at h
  split at h
  · split at h
    · simp at h
    · obtain rfl := Except.ok.inj h
      trivial
  · simp at h

private theorem sealed_cons {token : Token} {start stop : Nat} {rest : Cut} (htoken : token.Sealed)
    (hrest : ∀ t ∈ rest.tokens, t.value.Sealed) :
    ∀ t ∈ (Cut.cons token start stop rest).tokens, t.value.Sealed :=
  List.forall_mem_cons.2 ⟨htoken, hrest⟩

theorem sealed_of_mem_scan (start here : Nat) (mode : Mode) (cs : List Char)
    (hmode : mode.Sealed) :
    ∀ token ∈ (scan start here mode cs).tokens, token.value.Sealed := by
  fun_induction scan start here mode cs with
  | case2 => simp [Token.Sealed]
  | case5 =>
    rename_i ih
    exact sealed_cons trivial (ih trivial)
  | case10 =>
    rename_i ih
    exact sealed_cons rfl (ih trivial)
  | case11 =>
    rename_i hclose ih
    exact ih (by simp [Mode.Sealed, marksAfter?, hclose])
  | case16 =>
    rename_i ih
    exact sealed_cons (sealed_ofTag hmode) (ih trivial)
  | case17 =>
    rename_i hinside ih
    refine ih ?_
    rw [Mode.Sealed, List.reverse_cons]
    exact marksAfter?_concat hmode hinside
  | case18 =>
    rename_i ih
    exact sealed_cons trivial (ih trivial)
  | case20 =>
    rename_i htoken ih
    exact sealed_cons (sealed_ofInstruction? htoken) (ih trivial)
  | case23 =>
    rename_i htoken ih
    exact sealed_cons (sealed_ofComment? htoken) (ih trivial)
  | case26 =>
    rename_i htoken ih
    exact sealed_cons (sealed_ofLiteral? htoken) (ih trivial)
  | case29 =>
    rename_i htoken ih
    exact sealed_cons (sealed_ofDeclaration htoken) (ih trivial)
  | case4 | case6 | case7 | case8 | case9 | case12 | case13 | case14 | case19 | case22 | case25
  | case28 | case31 | case32 =>
    rename_i ih
    exact ih trivial
  | _ => simp [Cut.failed]

end Token

/-- The attributes of an element, as they can be given in a text: none twice, and if neither the
name of the element nor those of its attributes have quotes, they can be written again. -/
structure Given (name : String) (attributes : List (String × String)) : Prop where
  nodup : (attributes.map Prod.fst).Nodup
  names : (∀ c ∈ name.toList, isInner c = true) → (∀ a ∈ attributes, Unquoted a.1) →
    ∀ a ∈ attributes, isAttributeName a.1 = true

namespace Event

/-- The attributes of a tag are such as can be given. -/
def IsGiven : Event → Prop
  | .opens name attributes | .empty name attributes => Given name attributes
  | .closes _ | .text _ | .literal _ | .skipped => True

theorem isGiven_of_ofTag {inside : List Char} {single : Bool} {start : Nat} {event : Event}
    (hsealed : (marksAfter? none inside).isSome)
    (h : ofTag inside single start = .ok event) : event.IsGiven := by
  simp only [ofTag] at h
  split at h
  · rename_i attributes hread
    have hgiven : Given (String.ofList (inside.takeWhile (!isSpace ·))) attributes := by
      refine ⟨Attribute.nodup_of_readFrom hread trivial .nil, fun hname hunquoted => ?_⟩
      rw [String.toList_ofList] at hname
      rw [← List.takeWhile_append_dropWhile (p := (!isSpace ·)) (l := inside),
        Token.marksAfter?_append, Token.marksAfter?_inner hname, Option.bind_some] at hsealed
      exact Attribute.isAttributeName_of_readFrom hread hunquoted hsealed rfl (by simp)
    obtain rfl := Except.ok.inj h
    cases single <;> exact hgiven
  · simp at h
  · simp at h

theorem isGiven_of_mem_ofTokens {fault : Option Fault} {tokens : List (Placed Token)}
    (h : ∀ token ∈ tokens, token.value.Sealed) :
    ∀ event ∈ (ofTokens fault tokens).events, event.value.IsGiven := by
  induction tokens with
  | nil => simp [ofTokens]
  | cons token rest ih =>
    rw [List.forall_mem_cons] at h
    simp only [ofTokens]
    split
    · rename_i event hevent
      refine List.forall_mem_cons.2 ⟨?_, ih h.2⟩
      cases hvalue : token.value with
      | tag inside single =>
        rw [hvalue] at hevent h
        exact isGiven_of_ofTag h.1 hevent
      | text chars =>
        simp only [hvalue, ofToken] at hevent
        split at hevent
        · obtain rfl := Except.ok.inj hevent
          trivial
        · simp at hevent
      | literal chars | closing name | skipped =>
        simp only [hvalue, ofToken] at hevent
        obtain rfl := Except.ok.inj hevent
        trivial
    · simp

end Event

namespace Building

/-- All elements that are open or complete are such as can be given. -/
structure AllGiven (b : Building) : Prop where
  opened : ∀ e ∈ b.stack, Given e.name e.attributes
  inside : ∀ e ∈ b.stack, ∀ inner, .element inner ∈ e.items →
    ∀ d ∈ inner.elements, Given d.name d.attributes
  root : ∀ e, b.root = some e → ∀ d ∈ e.elements, Given d.name d.attributes

namespace AllGiven

variable {b built : Building} {stack : List OpenElement} {item : Item Element}

theorem add (h : b.AllGiven)
    (hitem : ∀ inner, item = .element inner → ∀ d ∈ inner.elements, Given d.name d.attributes)
    (hadd : Building.add item b.stack = some stack) : AllGiven { b with stack } := by
  obtain ⟨hopened, hinside, hroot⟩ := h
  cases hstack : b.stack with
  | nil => simp [hstack, Building.add] at hadd
  | cons e outer =>
    simp only [hstack, Building.add, Option.some.injEq] at hadd
    subst hadd
    simp only [hstack, List.forall_mem_cons] at hopened hinside
    refine ⟨List.forall_mem_cons.2 hopened, List.forall_mem_cons.2 ⟨?_, hinside.2⟩, hroot⟩
    intro inner hinner
    rcases List.mem_cons.1 hinner with heq | hmem
    · exact hitem inner heq.symm
    · exact hinside.1 inner hmem

theorem attach {e : Element} {place : Nat} (h : b.AllGiven)
    (he : ∀ d ∈ e.elements, Given d.name d.attributes) (hattach : b.attach e place = .ok built) :
    built.AllGiven := by
  unfold Building.attach at hattach
  split at hattach
  · rename_i stack hadd
    obtain rfl := Except.ok.inj hattach
    refine h.add (fun inner heq => ?_) hadd
    obtain rfl := Item.element.inj heq
    exact he
  · obtain rfl := Except.ok.inj hattach
    refine ⟨h.opened, h.inside, fun root hroot => ?_⟩
    obtain rfl := Option.some_inj.1 hroot
    exact he
  · simp at hattach

theorem step {event : Placed Event} (h : b.AllGiven) (hevent : event.value.IsGiven)
    (hstep : b.step event = .ok built) : built.AllGiven := by
  unfold Building.step at hstep
  cases hvalue : event.value with
  | opens name attributes =>
    rw [hvalue] at hstep hevent
    obtain rfl := Except.ok.inj hstep
    exact ⟨List.forall_mem_cons.2 ⟨hevent, h.opened⟩,
      List.forall_mem_cons.2 ⟨by simp, h.inside⟩, h.root⟩
  | empty name attributes =>
    rw [hvalue] at hstep hevent
    refine h.attach ?_ hstep
    have hself : Given name attributes := hevent
    simpa [Element.elements, Element.elementsOfItems] using hself
  | closes name =>
    simp only [hvalue] at hstep
    split at hstep
    · rename_i e outer hstack
      obtain ⟨hopened, hinside, hroot⟩ := h
      simp only [hstack, List.forall_mem_cons] at hopened hinside
      split at hstep
      · refine attach (b := { b with stack := outer }) ⟨hopened.2, hinside.2, hroot⟩ ?_ hstep
        intro d hd
        rcases List.mem_cons.1 hd with rfl | hd
        · exact hopened.1
        · obtain ⟨inner, hinner, hd⟩ := Element.mem_elementsOfItems_iff.1 hd
          exact hinside.1 inner (List.mem_reverse.1 hinner) d hd
      · simp at hstep
    · simp at hstep
  | text chars =>
    simp only [hvalue] at hstep
    split at hstep
    · rename_i stack hadd
      obtain rfl := Except.ok.inj hstep
      exact h.add (by simp) hadd
    · split at hstep
      · obtain rfl := Except.ok.inj hstep
        exact h
      · simp at hstep
  | literal chars =>
    simp only [hvalue] at hstep
    split at hstep
    · rename_i stack hadd
      obtain rfl := Except.ok.inj hstep
      exact h.add (by simp) hadd
    · simp at hstep
  | skipped =>
    rw [hvalue] at hstep
    obtain rfl := Except.ok.inj hstep
    exact h

end AllGiven

end Building

private theorem allGiven_of_foldlM {events : List (Placed Event)} {b built : Building}
    (hb : b.AllGiven) (hevents : ∀ event ∈ events, event.value.IsGiven)
    (h : events.foldlM Building.step b = .ok built) : built.AllGiven := by
  induction events generalizing b with
  | nil =>
    obtain rfl := Except.ok.inj h
    exact hb
  | cons event rest ih =>
    rw [List.forall_mem_cons] at hevents
    rw [List.foldlM_cons] at h
    obtain ⟨mid, hmid, hrest⟩ := bind_eq_ok_iff.1 h
    exact ih (hb.step hevents.1 hmid) hevents.2 hrest

theorem given_of_ofText {text : String} {root : Element} (h : Element.ofText text = .ok root) :
    ∀ e ∈ root.elements, Given e.name e.attributes := by
  simp only [Element.ofText, Element.ofEvents] at h
  obtain ⟨built, hbuilt, hfinish⟩ := bind_eq_ok_iff.1 h
  have hsealed := Token.sealed_of_mem_scan 0 0 (.text []) (Token.withoutMark text.toList) trivial
  have hgiven := allGiven_of_foldlM ⟨by simp [Building.start], by simp [Building.start],
    by simp [Building.start]⟩ (Event.isGiven_of_mem_ofTokens hsealed) hbuilt
  split at hfinish
  · simp at hfinish
  · unfold Building.finish at hfinish
    split at hfinish
    · simp at hfinish
    · rename_i root' hroot
      obtain rfl := Except.ok.inj hfinish
      exact hgiven.root _ hroot
    · simp at hfinish

end LiveDoc.Markup
