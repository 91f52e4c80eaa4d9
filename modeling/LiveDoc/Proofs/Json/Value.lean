import LiveDoc.Json.Written
import LiveDoc.Proofs.Json.Number
import LiveDoc.Proofs.Table

/-!
# Values of JSON

Values by induction, the numbers in a value and how deeply it is nested. The canonical form of a
value holds no other numbers, is nested no deeper and is its own canonical form.
-/

set_option autoImplicit false
set_option relaxedAutoImplicit false

namespace LiveDoc

namespace Json

mutual

/-- What holds of the simple values, and of an array or object with what is in it, holds of all
values. -/
theorem induct {P : Json → Prop} (null : P .null) (bool : ∀ b, P (.bool b)) (num : ∀ n, P (.num n))
    (str : ∀ s, P (.str s)) (arr : ∀ items, (∀ item ∈ items, P item) → P (.arr items))
    (obj : ∀ members, (∀ member ∈ members, P member.2) → P (.obj members)) : ∀ j, P j
  | .null => null
  | .bool b => bool b
  | .num n => num n
  | .str s => str s
  | .arr items => arr items (induct_items null bool num str arr obj items)
  | .obj members => obj members (induct_members null bool num str arr obj members)
termination_by structural j => j

theorem induct_items {P : Json → Prop} (null : P .null) (bool : ∀ b, P (.bool b))
    (num : ∀ n, P (.num n)) (str : ∀ s, P (.str s))
    (arr : ∀ items, (∀ item ∈ items, P item) → P (.arr items))
    (obj : ∀ members, (∀ member ∈ members, P member.2) → P (.obj members)) :
    ∀ items : List Json, ∀ item ∈ items, P item
  | [] => by simp
  | item :: rest => by
    rw [List.forall_mem_cons]
    exact ⟨induct null bool num str arr obj item,
      induct_items null bool num str arr obj rest⟩
termination_by structural items => items

theorem induct_members {P : Json → Prop} (null : P .null) (bool : ∀ b, P (.bool b))
    (num : ∀ n, P (.num n)) (str : ∀ s, P (.str s))
    (arr : ∀ items, (∀ item ∈ items, P item) → P (.arr items))
    (obj : ∀ members, (∀ member ∈ members, P member.2) → P (.obj members)) :
    ∀ members : List (String × Json), ∀ member ∈ members, P member.2
  | [] => by simp
  | (name, value) :: rest => by
    rw [List.forall_mem_cons]
    exact ⟨induct null bool num str arr obj value,
      induct_members null bool num str arr obj rest⟩
termination_by structural members => members

end

mutual

def numbers : Json → List Number
  | .num n => [n]
  | .arr items => numbersOfItems items
  | .obj members => numbersOfMembers members
  | .null | .bool _ | .str _ => []
termination_by structural j => j

def numbersOfItems : List Json → List Number
  | [] => []
  | item :: rest => item.numbers ++ numbersOfItems rest
termination_by structural items => items

def numbersOfMembers : List (String × Json) → List Number
  | [] => []
  | (_, value) :: rest => value.numbers ++ numbersOfMembers rest
termination_by structural members => members

end

mutual

/-- Whether at most `room` arrays and objects are nested in a value. -/
def fits : Json → (room : Nat) → Bool
  | .arr items, room + 1 => itemsFit items room
  | .obj members, room + 1 => membersFit members room
  | .arr _, 0 | .obj _, 0 => false
  | .null, _ | .bool _, _ | .num _, _ | .str _, _ => true
termination_by structural j => j

def itemsFit : List Json → (room : Nat) → Bool
  | [], _ => true
  | item :: rest, room => item.fits room && itemsFit rest room
termination_by structural items => items

def membersFit : List (String × Json) → (room : Nat) → Bool
  | [], _ => true
  | (_, value) :: rest, room => value.fits room && membersFit rest room
termination_by structural members => members

end

mutual

def renumber (f : Number → Number) : Json → Json
  | .num n => .num (f n)
  | .arr items => .arr (renumberItems f items)
  | .obj members => .obj (renumberMembers f members)
  | .null => .null
  | .bool b => .bool b
  | .str s => .str s
termination_by structural j => j

def renumberItems (f : Number → Number) : List Json → List Json
  | [] => []
  | item :: rest => item.renumber f :: renumberItems f rest
termination_by structural items => items

def renumberMembers (f : Number → Number) : List (String × Json) → List (String × Json)
  | [] => []
  | (name, value) :: rest => (name, value.renumber f) :: renumberMembers f rest
termination_by structural members => members

end

section Parts

variable {n : Number} {items : List Json} {members : List (String × Json)} {room : Nat}

theorem mem_numbersOfItems : n ∈ numbersOfItems items ↔ ∃ item ∈ items, n ∈ item.numbers := by
  induction items with
  | nil => simp [numbersOfItems]
  | cons item rest ih => simp [numbersOfItems, ih]

theorem mem_numbersOfMembers :
    n ∈ numbersOfMembers members ↔ ∃ member ∈ members, n ∈ member.2.numbers := by
  induction members with
  | nil => simp [numbersOfMembers]
  | cons member rest ih => simp [numbersOfMembers, ih]

theorem itemsFit_iff : itemsFit items room = true ↔ ∀ item ∈ items, item.fits room = true := by
  induction items with
  | nil => simp [itemsFit]
  | cons item rest ih => simp [itemsFit, ih]

theorem membersFit_iff :
    membersFit members room = true ↔ ∀ member ∈ members, member.2.fits room = true := by
  induction members with
  | nil => simp [membersFit]
  | cons member rest ih => simp [membersFit, ih]

theorem canonicalItems_eq_map (items : List Json) : canonicalItems items = items.map canonical := by
  induction items with
  | nil => rfl
  | cons item rest ih => rw [canonicalItems, ih, List.map_cons]

theorem canonicalMembers_eq_mapValues (members : List (String × Json)) :
    canonicalMembers members = Table.mapValues canonical members := by
  induction members with
  | nil => rfl
  | cons member rest ih =>
    rw [canonicalMembers, ih]
    rfl

theorem renumberItems_eq_map (f : Number → Number) (items : List Json) :
    renumberItems f items = items.map (renumber f) := by
  induction items with
  | nil => rfl
  | cons item rest ih => rw [renumberItems, ih, List.map_cons]

theorem renumberMembers_eq_mapValues (f : Number → Number) (members : List (String × Json)) :
    renumberMembers f members = Table.mapValues (renumber f) members := by
  induction members with
  | nil => rfl
  | cons member rest ih =>
    rw [renumberMembers, ih]
    rfl

end Parts

section Renumber

theorem renumber_id (j : Json) : j.renumber id = j := by
  induction j using induct with
  | arr items ih =>
    rw [renumber, renumberItems_eq_map, List.map_congr_left ih, List.map_id']
  | obj members ih =>
    have hvalues : Table.mapValues (renumber id) members = members :=
      (List.map_congr_left fun member hmember => by rw [ih member hmember]; rfl).trans
        (List.map_id _)
    rw [renumber, renumberMembers_eq_mapValues, hvalues]
  | _ => rfl

theorem fits_renumber (f : Number → Number) (j : Json) :
    ∀ room, (j.renumber f).fits room = j.fits room := by
  induction j using induct with
  | arr items ih =>
    rintro (_ | room)
    · rfl
    · rw [renumber, renumberItems_eq_map, fits, fits, Bool.eq_iff_iff, itemsFit_iff, itemsFit_iff,
        List.forall_mem_map]
      exact forall₂_congr fun item hitem => by rw [ih item hitem]
  | obj members ih =>
    rintro (_ | room)
    · rfl
    · rw [renumber, renumberMembers_eq_mapValues, Table.mapValues, fits, fits, Bool.eq_iff_iff,
        membersFit_iff, membersFit_iff, List.forall_mem_map]
      exact forall₂_congr fun member hmember => by rw [ih member hmember]
  | _ => exact fun _ => rfl

end Renumber

section Canonical

variable {n : Number} {members : List (String × Json)} {member : String × Json}

private theorem exists_of_mem_canonical (h : member ∈ Table.ofList (canonicalMembers members)) :
    ∃ old ∈ members, member = (old.1, old.2.canonical) := by
  have hmem := Table.mem_of_mem_ofList h
  rw [canonicalMembers_eq_mapValues] at hmem
  obtain ⟨old, hold, rfl⟩ := List.mem_map.1 hmem
  exact ⟨old, hold, rfl⟩

theorem mem_numbers_of_canonical (j : Json) : n ∈ j.canonical.numbers → n ∈ j.numbers := by
  induction j using induct with
  | arr items ih =>
    rw [canonical, canonicalItems_eq_map, numbers, numbers, mem_numbersOfItems, mem_numbersOfItems]
    rintro ⟨_, hmem, hn⟩
    obtain ⟨item, hitem, rfl⟩ := List.mem_map.1 hmem
    exact ⟨item, hitem, ih item hitem hn⟩
  | obj members ih =>
    rw [canonical, numbers, numbers, mem_numbersOfMembers, mem_numbersOfMembers]
    rintro ⟨_, hmem, hn⟩
    obtain ⟨member, hmember, rfl⟩ := exists_of_mem_canonical hmem
    exact ⟨member, hmember, ih member hmember hn⟩
  | _ => exact id

theorem fits_canonical (j : Json) : ∀ room, j.fits room = true → j.canonical.fits room = true := by
  induction j using induct with
  | arr items ih =>
    intro room h
    cases room with
    | zero => simp [fits] at h
    | succ room =>
      rw [fits, itemsFit_iff] at h
      rw [canonical, canonicalItems_eq_map, fits, itemsFit_iff]
      intro _ hmem
      obtain ⟨item, hitem, rfl⟩ := List.mem_map.1 hmem
      exact ih item hitem room (h item hitem)
  | obj members ih =>
    intro room h
    cases room with
    | zero => simp [fits] at h
    | succ room =>
      rw [fits, membersFit_iff] at h
      rw [canonical, fits, membersFit_iff]
      intro _ hmem
      obtain ⟨member, hmember, rfl⟩ := exists_of_mem_canonical hmem
      exact ih member hmember room (h member hmember)
  | _ => exact fun _ h => h

theorem canonical_canonical (j : Json) : j.canonical.canonical = j.canonical := by
  induction j using induct with
  | arr items ih =>
    rw [canonical, canonical, canonicalItems_eq_map, canonicalItems_eq_map, List.map_map]
    exact congrArg Json.arr (List.map_congr_left ih)
  | obj members ih =>
    have hvalues : Table.mapValues canonical (Table.mapValues canonical members) =
        Table.mapValues canonical members := by
      rw [Table.mapValues, Table.mapValues, List.map_map]
      exact List.map_congr_left fun member hmember => by simp [ih member hmember]
    rw [canonical, canonical, canonicalMembers_eq_mapValues, canonicalMembers_eq_mapValues,
      Table.mapValues_ofList, hvalues, (Table.sorted_ofList _).ofList_eq]
  | _ => rfl

end Canonical

end Json

end LiveDoc
