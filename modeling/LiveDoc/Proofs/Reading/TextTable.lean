import LiveDoc.Node.Printer
import LiveDoc.Node.Reader
import LiveDoc.Proofs.Grammar.Attributes
import LiveDoc.Proofs.Table

/-!
# Tables of texts

Attributes that an element has besides the known ones are kept in a table and written from it. What
is read of the written ones is the same table.
-/

set_option autoImplicit false
set_option relaxedAutoImplicit false

namespace LiveDoc

open Markup (attributeChars isAttributeName value?)

def tableAttributes (besides : List String) (table : Table Json) : List (String × String) :=
  (table.filter (!besides.contains ·.1)).map fun entry => (entry.1, entry.2.plainText)

theorem tableAttributes_eq_filter (besides : List String) (table : Table Json) :
    tableAttributes besides table =
      tableAttributes [] (table.filter (!besides.contains ·.1)) := by
  simp [tableAttributes]

theorem toList_tableAttrs (besides : List String) (table : Table Json) :
    (tableAttrs besides table).toList = attributeChars (tableAttributes besides table) := by
  simp only [tableAttrs, tableAttributes]
  induction table.filter (!besides.contains ·.1) with
  | nil => rfl
  | cons entry rest ih =>
    rw [List.map_cons, List.map_cons, Markup.attributeChars_cons, ← ih, ← Markup.toList_attr]
    simp

theorem value?_tableAttributes {besides : List String} {name : String} (h : name ∉ besides)
    (table : Table Json) :
    value? name (tableAttributes besides table) = (table.get? name).map Json.plainText := by
  induction table with
  | nil => rfl
  | cons entry rest ih =>
    obtain ⟨other, value⟩ := entry
    rw [Table.get?]
    by_cases hname : other = name
    · simp [tableAttributes, hname, h, Markup.value?_cons_self]
    · rw [if_neg hname, ← ih]
      simp only [tableAttributes, List.filter_cons]
      split
      · rw [List.map_cons, Markup.value?_cons_of_ne hname]
      · rfl

namespace Reading

structure IsTextTable (besides : List String) (table : Table Json) : Prop where
  sorted : table.Sorted
  names : ∀ entry ∈ table, entry.1 ∉ besides
  texts : ∀ entry ∈ table, ∃ s, entry.2 = .str s

variable {besides : List String} {table : Table Json} {attributes : List (String × String)}

theorem isTextTable_textTable (besides : List String) (attributes : List (String × String)) :
    IsTextTable besides (textTable besides attributes) := by
  refine ⟨Table.sorted_ofList _, fun entry hentry => ?_, fun entry hentry => ?_⟩
  all_goals
    obtain ⟨a, ha, rfl⟩ := List.mem_map.1 (Table.mem_of_mem_ofList hentry)
  · simpa using (List.mem_filter.1 ha).2
  · exact ⟨a.2, rfl⟩

theorem IsTextTable.filter (h : IsTextTable besides table) (p : String × Json → Bool) :
    IsTextTable besides (table.filter p) :=
  ⟨h.sorted.filter p, fun entry hentry => h.names entry (List.mem_filter.1 hentry).1,
    fun entry hentry => h.texts entry (List.mem_filter.1 hentry).1⟩

theorem IsTextTable.value?_eq_none (h : IsTextTable besides table) {name : String}
    (hname : name ∈ besides) (without : List String) :
    value? name (tableAttributes without table) = none := by
  refine Markup.value?_eq_none fun hmem => ?_
  obtain ⟨a, ha, heq⟩ := List.mem_map.1 hmem
  obtain ⟨entry, hentry, rfl⟩ := List.mem_map.1 ha
  exact h.names entry (List.mem_filter.1 hentry).1 (heq ▸ hname)

theorem textTable_append_tableAttributes {front : List (String × String)}
    (hfront : ∀ a ∈ front, a.1 ∈ besides) (h : IsTextTable besides table) :
    textTable besides (front ++ tableAttributes [] table) = table := by
  have hdrop : front.filter (!besides.contains ·.1) = [] := by
    simpa [List.filter_eq_nil_iff] using fun a b hab => hfront (a, b) hab
  have hkeep : (tableAttributes [] table).filter (!besides.contains ·.1) =
      tableAttributes [] table := by
    refine List.filter_eq_self.2 fun a ha => ?_
    obtain ⟨entry, hentry, rfl⟩ := List.mem_map.1 ha
    simpa using h.names entry (by simpa using hentry)
  have hvalues : (tableAttributes [] table).map (fun a => (a.1, Json.str a.2)) = table := by
    have hall : table.filter (fun entry => !([] : List String).contains entry.1) = table := by simp
    rw [tableAttributes, hall, List.map_map]
    have heach : ∀ entry ∈ table,
        ((fun a : String × String => (a.1, Json.str a.2)) ∘ fun entry : String × Json =>
          (entry.1, entry.2.plainText)) entry = id entry := by
      intro entry hentry
      obtain ⟨s, hs⟩ := h.texts entry hentry
      obtain ⟨key, value⟩ := entry
      simp only [] at hs
      simp [hs, Json.plainText]
    rw [List.map_congr_left heach, List.map_id]
  rw [textTable, List.filter_append, hdrop, hkeep, List.nil_append, hvalues, h.sorted.ofList_eq]

theorem tableAttributes_nodup (besides : List String) (h : table.Sorted) :
    ((tableAttributes besides table).map Prod.fst).Nodup := by
  have hsub : ((tableAttributes besides table).map Prod.fst).Sublist table.names := by
    rw [tableAttributes, List.map_map]
    exact List.filter_sublist.map Prod.fst
  exact hsub.nodup h.nodup

theorem mem_tableAttributes_textTable_iff (hnodup : (attributes.map Prod.fst).Nodup)
    {without : List String} {a : String × String} :
    a ∈ tableAttributes without (textTable besides attributes) ↔
      a ∈ attributes ∧ a.1 ∉ besides ∧ a.1 ∉ without := by
  have hmem {name : String} {value : Json} : (name, value) ∈ textTable besides attributes ↔
      ∃ s, value = .str s ∧ (name, s) ∈ attributes ∧ name ∉ besides := by
    have hkeys : ((attributes.filter (!besides.contains ·.1)).map
        fun a => (a.1, Json.str a.2)).map Prod.fst =
          (attributes.filter (!besides.contains ·.1)).map Prod.fst := by
      rw [List.map_map]
      rfl
    constructor
    · intro h
      obtain ⟨b, hb, heq⟩ := List.mem_map.1 (Table.mem_of_mem_ofList h)
      obtain ⟨rfl, rfl⟩ := Prod.mk.inj heq
      rw [List.mem_filter] at hb
      exact ⟨b.2, rfl, hb.1, by simpa using hb.2⟩
    · rintro ⟨s, rfl, ha, hname⟩
      have hfiltered : (name, s) ∈ attributes.filter (!besides.contains ·.1) :=
        List.mem_filter.2 ⟨ha, by simpa using hname⟩
      refine (Table.get?_eq_some_iff (Table.sorted_ofList _)).1 ?_
      refine Table.get?_ofList_of_mem ?_ (List.mem_map.2 ⟨(name, s), hfiltered, rfl⟩)
      rw [hkeys]
      exact (List.filter_sublist.map Prod.fst).nodup hnodup
  obtain ⟨name, value⟩ := a
  simp only [tableAttributes, List.mem_map, List.mem_filter, Prod.exists, hmem, Prod.mk.injEq,
    Bool.not_eq_true', List.contains_eq_mem, decide_eq_false_iff_not]
  constructor
  · rintro ⟨key, _, ⟨⟨s, rfl, ha, hbesides⟩, hwithout⟩, rfl, rfl⟩
    exact ⟨ha, hbesides, hwithout⟩
  · rintro ⟨ha, hbesides, hwithout⟩
    exact ⟨name, .str value, ⟨⟨value, rfl, ha, hbesides⟩, hwithout⟩, rfl, rfl⟩

theorem value?_tableAttributes_textTable (hnodup : (attributes.map Prod.fst).Nodup)
    {without : List String} {name : String} (hbesides : name ∉ besides)
    (hwithout : name ∉ without) :
    value? name (tableAttributes without (textTable besides attributes)) =
      value? name attributes := by
  have hwritten := tableAttributes_nodup without (isTextTable_textTable besides attributes).sorted
  refine Option.ext fun value => ?_
  rw [Markup.value?_eq_some_iff hwritten, Markup.value?_eq_some_iff hnodup,
    mem_tableAttributes_textTable_iff hnodup]
  simp [hbesides, hwithout]

theorem get?_textTable (hnodup : (attributes.map Prod.fst).Nodup) {name value : String}
    (hname : name ∉ besides) (h : value? name attributes = some value) :
    (textTable besides attributes).get? name = some (.str value) := by
  have hwritten : value? name (tableAttributes [] (textTable besides attributes)) = some value :=
    (value?_tableAttributes_textTable hnodup hname List.not_mem_nil).trans h
  rw [value?_tableAttributes List.not_mem_nil, Option.map_eq_some_iff] at hwritten
  obtain ⟨kept, hkept, rfl⟩ := hwritten
  obtain ⟨s, rfl⟩ := (isTextTable_textTable besides attributes).texts _ (Table.mem_of_get? hkept)
  exact hkept

end Reading

end LiveDoc
