import LiveDoc.Json.Reader
import LiveDoc.Proofs.Json.Token

/-!
# Reading written JSON

A value in canonical form that is nested no deeper than what is read, and that holds no numbers but
integers, is read from its text. All values that are read are such, but for their numbers.
-/

set_option autoImplicit false
set_option relaxedAutoImplicit false

namespace LiveDoc.Json

mutual

def written : Json → Written
  | .arr items => .arr (writtenItems items)
  | .obj members => .obj (writtenMembers members)
  | .null => .scalar (some .null)
  | .bool b => .scalar (some (.bool b))
  | .num n => .scalar (some (.num n))
  | .str s => .scalar (some (.str s))
termination_by structural j => j

def writtenItems : List Json → List Written
  | [] => []
  | item :: rest => item.written :: writtenItems rest
termination_by structural items => items

def writtenMembers : List (String × Json) → List (Option String × Written)
  | [] => []
  | (name, value) :: rest => (some name, value.written) :: writtenMembers rest
termination_by structural members => members

end

namespace Reading

/-- A value has to come next or, at the beginning of an array, its end. -/
def AtValue (r : Reading) (stack : List Frame) : Prop :=
  r = ⟨stack, .value⟩ ∨ ∃ outer, stack = .items [] :: outer ∧ r = ⟨stack, .itemOrEnd⟩

variable {r : Reading} {stack : List Frame}

theorem AtValue.step?_eq (h : r.AtValue stack) {token : Token} (hend : token ≠ .closeArray) :
    r.step? token = begin? stack token := by
  rcases h with rfl | ⟨outer, rfl, rfl⟩
  · rfl
  · cases token <;> first | rfl | exact absurd rfl hend

mutual

theorem foldlM_tokens : ∀ (j : Json) (r : Reading) (stack : List Frame), r.AtValue stack →
    j.tokens.foldlM step? r = some ⟨stack, .separator j.written⟩
  | .null, r, stack, h => by simp [tokens, h.step?_eq, begin?, written]
  | .bool b, r, stack, h => by simp [tokens, h.step?_eq, begin?, written]
  | .num n, r, stack, h => by simp [tokens, h.step?_eq, begin?, written]
  | .str s, r, stack, h => by simp [tokens, h.step?_eq, begin?, written]
  | .arr [], r, stack, h => by
    have hopen : r.step? .openArray = begin? stack .openArray := h.step?_eq (by simp)
    rw [tokens, List.foldlM_cons, hopen]
    simp [begin?, step?, written, writtenItems]
  | .arr (item :: items), r, stack, h => by
    have hitem := foldlM_tokens item ⟨.items [] :: stack, .itemOrEnd⟩ (.items [] :: stack)
      (.inr ⟨stack, rfl, rfl⟩)
    have hitems := foldlM_tokensOfItems items [] item.written stack
    simp [tokens, h.step?_eq, begin?, List.foldlM_append, hitem, hitems, written, writtenItems]
  | .obj [], r, stack, h => by
    have hopen : r.step? .openObject = begin? stack .openObject := h.step?_eq (by simp)
    rw [tokens, List.foldlM_cons, hopen]
    simp [begin?, step?, written, writtenMembers]
  | .obj ((name, value) :: members), r, stack, h => by
    have hvalue := foldlM_tokens value ⟨.members [] (some name) :: stack, .value⟩
      (.members [] (some name) :: stack) (.inl rfl)
    have hmembers := foldlM_tokensOfMembers members [] (some name) value.written stack
    have hopen : r.step? .openObject = begin? stack .openObject := h.step?_eq (by simp)
    rw [tokens, List.foldlM_cons, hopen]
    simp [begin?, step?, List.foldlM_append, hvalue, hmembers, written, writtenMembers]
termination_by structural j => j

theorem foldlM_tokensOfItems : ∀ (items : List Json) (done : List Written) (last : Written)
    (stack : List Frame),
    (tokensOfItems items).foldlM step? ⟨.items done :: stack, .separator last⟩ =
      some ⟨stack, .separator (.arr ((last :: done).reverse ++ writtenItems items))⟩
  | [], done, last, stack => by simp [tokensOfItems, step?, writtenItems]
  | item :: items, done, last, stack => by
    have hitem := foldlM_tokens item ⟨.items (last :: done) :: stack, .value⟩
      (.items (last :: done) :: stack) (.inl rfl)
    have hitems := foldlM_tokensOfItems items (last :: done) item.written stack
    simp [tokensOfItems, step?, List.foldlM_append, hitem, hitems, writtenItems]
termination_by structural items => items

theorem foldlM_tokensOfMembers : ∀ (members : List (String × Json))
    (done : List (Option String × Written)) (name : Option String) (last : Written)
    (stack : List Frame),
    (tokensOfMembers members).foldlM step? ⟨.members done name :: stack, .separator last⟩ =
      some ⟨stack, .separator (.obj (((name, last) :: done).reverse ++ writtenMembers members))⟩
  | [], done, name, last, stack => by simp [tokensOfMembers, step?, writtenMembers]
  | (next, value) :: members, done, name, last, stack => by
    have hvalue := foldlM_tokens value
      ⟨.members ((name, last) :: done) (some next) :: stack, .value⟩
      (.members ((name, last) :: done) (some next) :: stack) (.inl rfl)
    have hmembers := foldlM_tokensOfMembers members ((name, last) :: done) (some next)
      value.written stack
    simp [tokensOfMembers, step?, List.foldlM_append, hvalue, hmembers, writtenMembers]
termination_by structural members => members

end

end Reading

mutual

theorem read?_written : ∀ (j : Json) (room : Nat), j.fits room = true →
    j.written.read? .whole room = some j
  | .null, room, _ | .bool _, room, _ | .num _, room, _ | .str _, room, _ => by
    simp [written, Written.read?]
  | .arr items, room + 1, h => by
    rw [fits] at h
    simp [written, Written.read?, readItems?_written items 0 room h]
  | .obj members, room + 1, h => by
    rw [fits] at h
    simp [written, Written.read?, readMembers?_written members room h]
  | .arr _, 0, h | .obj _, 0, h => by simp [fits] at h
termination_by structural j => j

theorem readItems?_written : ∀ (items : List Json) (place room : Nat), itemsFit items room = true →
    Written.readItems? (writtenItems items) .whole place room = some items
  | [], place, room, _ => rfl
  | item :: rest, place, room, h => by
    rw [itemsFit, Bool.and_eq_true] at h
    simp [writtenItems, Written.readItems?, Shape.item, read?_written item room h.1,
      readItems?_written rest (place + 1) room h.2]
termination_by structural items => items

theorem readMembers?_written : ∀ (members : List (String × Json)) (room : Nat),
    membersFit members room = true →
      Written.readMembers? (writtenMembers members) .whole room = some members
  | [], room, _ => rfl
  | (name, value) :: rest, room, h => by
    rw [membersFit, Bool.and_eq_true] at h
    simp [writtenMembers, Written.readMembers?, Shape.member?, read?_written value room h.1,
      readMembers?_written rest room h.2]
termination_by structural members => members

end

section Text

variable {f : Number → Number} {j : Json}

theorem ofText?_text (h : ∀ n ∈ j.numbers, Number.ofChars? n.text.toList = some (f n)) :
    Written.ofText? j.text = some (j.renumber f).written := by
  have hscan := scan_text j [] h (by simp [Token.Ends])
  have htokens : Token.ofText? j.text = some (j.renumber f).tokens := by
    rw [Token.ofText?, ← List.append_nil j.text.toList, hscan]
    simp [Token.scan]
  have hfold := Reading.foldlM_tokens (j.renumber f) Reading.start [] (.inl rfl)
  simp [Written.ofText?, htokens, hfold, Reading.finish?]

/-- A value that is not nested too deeply is read from its text, with the numbers that the texts of
its numbers denote. -/
theorem read?_text (hfits : j.fits maxDepth = true)
    (h : ∀ n ∈ j.numbers, Number.ofChars? n.text.toList = some (f n)) :
    Json.read? j.text = some (j.renumber f).canonical := by
  have hroom := (fits_renumber f j maxDepth).trans hfits
  simp [Json.read?, readShape?, ofText?_text h, read?_written _ maxDepth hroom]

end Text

/-- A value as it is read of a text, if its numbers are integers. -/
structure Readable (j : Json) : Prop where
  canonical : j.canonical = j
  fits : j.fits maxDepth = true
  numbers : ∀ n ∈ j.numbers, n.IsWord

theorem Readable.read?_text {j : Json} (h : j.Readable) : Json.read? j.text = some j := by
  rw [Json.read?_text (f := id) h.fits fun n hn => Number.ofChars?_text (h.numbers n hn),
    renumber_id, h.canonical]

/-- Whether nothing is nested in a value, and it is no number but one as it should be. -/
def Simple (P : Number → Prop) (j : Json) : Prop :=
  (∀ room, j.fits room = true) ∧ ∀ n ∈ j.numbers, P n

namespace Written

mutual

/-- Whether all values without parts in a written value are as they should be. -/
def All (P : Number → Prop) : Written → Prop
  | .scalar value => ∀ j ∈ value, j.Simple P
  | .arr items => AllItems P items
  | .obj members => AllMembers P members
termination_by structural w => w

def AllItems (P : Number → Prop) : List Written → Prop
  | [] => True
  | item :: rest => item.All P ∧ AllItems P rest
termination_by structural items => items

def AllMembers (P : Number → Prop) : List (Option String × Written) → Prop
  | [] => True
  | (_, written) :: rest => written.All P ∧ AllMembers P rest
termination_by structural members => members

end

mutual

theorem fits_of_read? {P : Number → Prop} : ∀ (w : Written) (room : Nat) (j : Json),
    w.read? .whole room = some j → w.All P → j.fits room = true ∧ ∀ n ∈ j.numbers, P n
  | .scalar value, room, j, h, hall => by
    rw [read?] at h
    have hsimple := hall j h
    exact ⟨hsimple.1 room, hsimple.2⟩
  | .arr items, room + 1, j, h, hall => by
    simp only [read?, Option.map_eq_some_iff] at h
    obtain ⟨values, hvalues, rfl⟩ := h
    rw [fits, numbers]
    exact fits_of_readItems? items 0 room values hvalues hall
  | .obj members, room + 1, j, h, hall => by
    simp only [read?, Option.map_eq_some_iff] at h
    obtain ⟨values, hvalues, rfl⟩ := h
    rw [fits, numbers]
    exact fits_of_readMembers? members room values hvalues hall
  | .arr _, 0, j, h, _ | .obj _, 0, j, h, _ => by simp [read?] at h
termination_by structural w => w

theorem fits_of_readItems? {P : Number → Prop} : ∀ (items : List Written) (place room : Nat)
    (values : List Json), readItems? items .whole place room = some values → AllItems P items →
      itemsFit values room = true ∧ ∀ n ∈ numbersOfItems values, P n
  | [], place, room, values, h, _ => by
    obtain rfl : [] = values := by simpa [readItems?] using h
    simp [itemsFit, numbersOfItems]
  | item :: rest, place, room, values, h, hall => by
    simp only [readItems?, Shape.item, Option.bind_eq_bind, Option.bind_eq_some_iff,
      Option.some.injEq] at h
    obtain ⟨value, hvalue, others, hothers, rfl⟩ := h
    have hfirst := fits_of_read? item room value hvalue hall.1
    have hrest := fits_of_readItems? rest (place + 1) room others hothers hall.2
    rw [itemsFit, numbersOfItems, Bool.and_eq_true, List.forall_mem_append]
    exact ⟨⟨hfirst.1, hrest.1⟩, hfirst.2, hrest.2⟩
termination_by structural items => items

theorem fits_of_readMembers? {P : Number → Prop} : ∀ (members : List (Option String × Written))
    (room : Nat) (values : List (String × Json)),
    readMembers? members .whole room = some values → AllMembers P members →
      membersFit values room = true ∧ ∀ n ∈ numbersOfMembers values, P n
  | [], room, values, h, _ => by
    obtain rfl : [] = values := by simpa [readMembers?] using h
    simp [membersFit, numbersOfMembers]
  | (none, _) :: rest, room, values, h, _ => by simp [readMembers?] at h
  | (some name, written) :: rest, room, values, h, hall => by
    simp only [readMembers?, Shape.member?, Option.bind_eq_bind, Option.bind_eq_some_iff,
      Option.some.injEq] at h
    obtain ⟨value, hvalue, others, hothers, rfl⟩ := h
    have hfirst := fits_of_read? written room value hvalue hall.1
    have hrest := fits_of_readMembers? rest room others hothers hall.2
    rw [membersFit, numbersOfMembers, Bool.and_eq_true, List.forall_mem_append]
    exact ⟨⟨hfirst.1, hrest.1⟩, hfirst.2, hrest.2⟩
termination_by structural members => members

end

theorem allItems_iff {P : Number → Prop} {items : List Written} :
    AllItems P items ↔ ∀ item ∈ items, item.All P := by
  induction items with
  | nil => simp [AllItems]
  | cons item rest ih => simp [AllItems, ih]

theorem allMembers_iff {P : Number → Prop} {members : List (Option String × Written)} :
    AllMembers P members ↔ ∀ member ∈ members, member.2.All P := by
  induction members with
  | nil => simp [AllMembers]
  | cons member rest ih => simp [AllMembers, ih]

end Written

def Token.All (P : Number → Prop) : Token → Prop
  | .scalar value => ∀ j ∈ value, j.Simple P
  | _ => True

/-- Whether what has been read of an open container is as it should be. -/
def Frame.All (P : Number → Prop) : Frame → Prop
  | .items done => ∀ item ∈ done, item.All P
  | .members done _ => ∀ member ∈ done, member.2.All P

/-- Whether what is kept until something else has come is as it should be. -/
def Expected.All (P : Number → Prop) : Expected → Prop
  | .value | .itemOrEnd => True
  | .nameOrEnd done | .name done | .colon done _ => ∀ member ∈ done, member.2.All P
  | .separator last => last.All P

structure Reading.All (P : Number → Prop) (r : Reading) : Prop where
  stack : ∀ frame ∈ r.stack, frame.All P
  expected : r.expected.All P

namespace Reading

variable {P : Number → Prop}

private theorem all_begin? {stack : List Frame} {token : Token} {next : Reading}
    (hstack : ∀ frame ∈ stack, frame.All P) (htoken : token.All P)
    (h : begin? stack token = some next) : next.All P := by
  cases token with
  | text chars =>
    obtain rfl := Option.some.inj h
    refine ⟨hstack, ?_⟩
    cases chars <;> simp [Expected.All, Written.All, Simple, fits, numbers]
  | scalar value =>
    obtain rfl := Option.some.inj h
    refine ⟨hstack, ?_⟩
    rw [Expected.All, Written.All]
    exact htoken
  | openArray =>
    obtain rfl := Option.some.inj h
    exact ⟨List.forall_mem_cons.2 ⟨by simp [Frame.All], hstack⟩, trivial⟩
  | openObject =>
    obtain rfl := Option.some.inj h
    exact ⟨List.forall_mem_cons.2 ⟨by simp [Frame.All], hstack⟩, by simp [Expected.All]⟩
  | _ => simp [begin?] at h

theorem All.step? {r next : Reading} {token : Token} (hr : r.All P) (htoken : token.All P)
    (h : r.step? token = some next) : next.All P := by
  obtain ⟨stack, expected⟩ := r
  obtain ⟨hstack, hexpected⟩ := hr
  unfold Reading.step? at h
  dsimp only at hstack hexpected h
  split at h
  · exact all_begin? hstack htoken h
  · obtain rfl := Option.some.inj h
    exact ⟨(List.forall_mem_cons.1 hstack).2, by simp [Expected.All, Written.All, Written.AllItems]⟩
  · exact all_begin? hstack htoken h
  · obtain rfl := Option.some.inj h
    exact ⟨(List.forall_mem_cons.1 hstack).2,
      by simp [Expected.All, Written.All, Written.AllMembers]⟩
  · obtain rfl := Option.some.inj h
    exact ⟨hstack, hexpected⟩
  · obtain rfl := Option.some.inj h
    exact ⟨hstack, hexpected⟩
  · obtain rfl := Option.some.inj h
    exact ⟨List.forall_mem_cons.2 ⟨hexpected, (List.forall_mem_cons.1 hstack).2⟩, trivial⟩
  · obtain rfl := Option.some.inj h
    rw [List.forall_mem_cons] at hstack
    exact ⟨List.forall_mem_cons.2 ⟨List.forall_mem_cons.2 ⟨hexpected, hstack.1⟩, hstack.2⟩, trivial⟩
  · obtain rfl := Option.some.inj h
    rw [List.forall_mem_cons] at hstack
    refine ⟨hstack.2, ?_⟩
    rw [Expected.All, Written.All, Written.allItems_iff]
    intro item hitem
    rcases List.mem_cons.1 (List.mem_reverse.1 hitem) with rfl | hitem
    · exact hexpected
    · exact hstack.1 item hitem
  · obtain rfl := Option.some.inj h
    have hinner := (List.forall_mem_cons.1 hstack).1
    exact ⟨hstack, List.forall_mem_cons.2 ⟨hexpected, hinner⟩⟩
  · obtain rfl := Option.some.inj h
    rw [List.forall_mem_cons] at hstack
    refine ⟨hstack.2, ?_⟩
    rw [Expected.All, Written.All, Written.allMembers_iff]
    intro member hmember
    rcases List.mem_cons.1 (List.mem_reverse.1 hmember) with rfl | hmember
    · exact hexpected
    · exact hstack.1 member hmember
  · simp at h

private theorem All.foldlM {r built : Reading} {tokens : List Token} (hr : r.All P)
    (htokens : ∀ token ∈ tokens, token.All P)
    (h : tokens.foldlM Reading.step? r = some built) : built.All P := by
  induction tokens generalizing r with
  | nil =>
    obtain rfl := Option.some.inj h
    exact hr
  | cons token rest ih =>
    rw [List.forall_mem_cons] at htokens
    simp only [List.foldlM_cons, Option.bind_eq_bind, Option.bind_eq_some_iff] at h
    obtain ⟨next, hnext, hrest⟩ := h
    exact ih (hr.step? htokens.1 hnext) htokens.2 hrest

end Reading

def Number.IsDenoted (n : Number) : Prop := ∃ numeral : Number.Numeral, numeral.value? = some n

namespace Token

private theorem all_ofWord? {letters : List Char} {token : Token}
    (h : ofWord? letters = some token) : token.All Number.IsDenoted := by
  unfold ofWord? at h
  split at h
  · obtain rfl := Option.some.inj h
    simp [Token.All, Simple, fits, numbers]
  split at h
  · obtain rfl := Option.some.inj h
    simp [Token.All, Simple, fits, numbers]
  split at h
  · obtain rfl := Option.some.inj h
    simp [Token.All, Simple, fits, numbers]
  · simp at h

private theorem all_ofNumeral? {chars : List Char} {token : Token}
    (h : ofNumeral? chars = some token) : token.All Number.IsDenoted := by
  obtain ⟨numeral, -, rfl⟩ := Option.map_eq_some_iff.1 h
  intro j hj
  obtain ⟨n, hn, rfl⟩ := Option.map_eq_some_iff.1 hj
  refine ⟨fun room => by simp [fits], fun m hm => ?_⟩
  obtain rfl : m = n := by simpa [numbers] using hm
  exact ⟨numeral, hn⟩

private theorem all_start? {c : Char} {token : Option Token} {mode : Mode}
    (h : start? c = some (token, mode)) : ∀ t ∈ token.toList, t.All Number.IsDenoted := by
  unfold start? at h
  split at h
  · obtain ⟨rfl, -⟩ := Prod.mk.inj (Option.some.inj h)
    simp
  split at h
  · obtain ⟨rfl, -⟩ := Prod.mk.inj (Option.some.inj h)
    simp
  split at h
  · obtain ⟨rfl, -⟩ := Prod.mk.inj (Option.some.inj h)
    simp
  split at h
  · obtain ⟨rfl, -⟩ := Prod.mk.inj (Option.some.inj h)
    simp
  · obtain ⟨mark, hmark, heq⟩ := Option.map_eq_some_iff.1 h
    obtain ⟨rfl, -⟩ := Prod.mk.inj heq
    have hall : mark.All Number.IsDenoted := by
      cases mark with
      | scalar value =>
        unfold ofMark? at hmark
        repeat' split at hmark
        all_goals simp at hmark
      | _ => trivial
    simpa using hall

theorem all_of_mem_scan {mode : Mode} {cs : List Char} {tokens : List Token}
    (h : scan mode cs = some tokens) : ∀ token ∈ tokens, token.All Number.IsDenoted := by
  fun_induction scan mode cs generalizing tokens with
  | case1 =>
    obtain rfl := Option.some.inj h
    simp
  | case2 letters =>
    obtain ⟨word, hword, rfl⟩ := Option.map_eq_some_iff.1 h
    simpa using all_ofWord? hword
  | case3 chars =>
    obtain ⟨numeral, hnumeral, rfl⟩ := Option.map_eq_some_iff.1 h
    simpa using all_ofNumeral? hnumeral
  | case5 c rest ih =>
    simp only [Option.bind_eq_bind, Option.bind_eq_some_iff, Option.some.injEq] at h
    obtain ⟨⟨token, mode⟩, hstart, others, hothers, rfl⟩ := h
    exact List.forall_mem_append.2 ⟨all_start? hstart, ih mode hothers⟩
  | case7 letters c rest hword ih =>
    simp only [Option.bind_eq_bind, Option.bind_eq_some_iff, Option.some.injEq] at h
    obtain ⟨word, hword, ⟨token, mode⟩, hstart, others, hothers, rfl⟩ := h
    exact List.forall_mem_cons.2
      ⟨all_ofWord? hword, List.forall_mem_append.2 ⟨all_start? hstart, ih mode hothers⟩⟩
  | case9 chars c rest hnumeral ih =>
    simp only [Option.bind_eq_bind, Option.bind_eq_some_iff, Option.some.injEq] at h
    obtain ⟨numeral, hnumeral, ⟨token, mode⟩, hstart, others, hothers, rfl⟩ := h
    exact List.forall_mem_cons.2
      ⟨all_ofNumeral? hnumeral, List.forall_mem_append.2 ⟨all_start? hstart, ih mode hothers⟩⟩
  | case10 codes rest ih =>
    obtain ⟨others, hothers, rfl⟩ := Option.map_eq_some_iff.1 h
    exact List.forall_mem_cons.2 ⟨trivial, ih hothers⟩
  | case6 | case8 | case11 | case13 | case14 | case16 =>
    rename_i ih
    exact ih h
  | case15 codes c rest hcode ih =>
    simp only [Option.bind_eq_bind, Option.bind_eq_some_iff] at h
    obtain ⟨plain, -, h⟩ := h
    exact ih plain h
  | case17 codes c digits rest hlength ih =>
    simp only [Option.bind_eq_bind, Option.bind_eq_some_iff] at h
    obtain ⟨code, -, h⟩ := h
    exact ih code h
  | _ => simp at h

end Token

/-- A value that is read is in canonical form, fits the room there is and holds no numbers but those
that numerals denote. -/
theorem of_read? {s : String} {j : Json} (h : Json.read? s = some j) :
    j.canonical = j ∧ j.fits maxDepth = true ∧ ∀ n ∈ j.numbers, n.IsDenoted := by
  simp only [Json.read?, readShape?, Written.ofText?, Token.ofText?, Option.map_eq_some_iff,
    Option.bind_eq_bind, Option.bind_eq_some_iff] at h
  obtain ⟨raw, ⟨w, ⟨tokens, htokens, built, hbuilt, hfinish⟩, hread⟩, rfl⟩ := h
  have hstart : Reading.start.All Number.IsDenoted := ⟨by simp [Reading.start], trivial⟩
  have hall := hstart.foldlM (Token.all_of_mem_scan htokens) hbuilt
  have hw : w.All Number.IsDenoted := by
    have hexpected := hall.expected
    unfold Reading.finish? at hfinish
    split at hfinish
    · rename_i heq
      obtain rfl := Option.some.inj hfinish
      rwa [heq] at hexpected
    · simp at hfinish
  obtain ⟨hfits, hnumbers⟩ := Written.fits_of_read? w maxDepth raw hread hw
  exact ⟨canonical_canonical raw, fits_canonical raw maxDepth hfits,
    fun n hn => hnumbers n (mem_numbers_of_canonical raw hn)⟩

/-- Whether a number is kept as an integer, as those that fit a 64-bit word are; the zero with a
minus sign, which is kept as a binary number, counts as one. -/
def Number.isInteger : Number → Bool
  | .int _ => true
  | .float x => x = .zero true

theorem readable_of_read? {s : String} {j : Json} (h : Json.read? s = some j)
    (hnumbers : ∀ n ∈ j.numbers, n.isInteger = true) : j.Readable := by
  obtain ⟨hcanonical, hfits, hdenoted⟩ := of_read? h
  refine ⟨hcanonical, hfits, fun n hn => ?_⟩
  obtain ⟨numeral, hnumeral⟩ := hdenoted n hn
  cases n with
  | int n => exact Number.isWord_of_value? hnumeral
  | float x =>
    show x = .zero true
    simpa [Number.isInteger] using hnumbers _ hn

end LiveDoc.Json
