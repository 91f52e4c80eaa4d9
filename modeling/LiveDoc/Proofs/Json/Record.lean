import LiveDoc.Json.Record
import LiveDoc.Proofs.Json.Value

/-!
# Reading back records

What is read of the fields of a record is what it has been written with: each field by its name, in
whatever order the members stand. Values and tables are read back if they are in order.
-/

set_option autoImplicit false
set_option relaxedAutoImplicit false

namespace LiveDoc.Json

/-- Values in which the members of every object stand in order, as they do in all that are kept. -/
def IsOrdered (j : Json) : Prop := j.canonical = j

instance (j : Json) : Decidable j.IsOrdered := inferInstanceAs (Decidable (_ = _))

section Fields

variable {α : Type} {name : String} {members : List (String × Json)}

theorem field?_eq_some (h : (members.map Prod.fst).Nodup) (name : String) :
    field? name members = some (Table.get? name members) := by
  induction members with
  | nil => rfl
  | cons member rest ih =>
    obtain ⟨key, value⟩ := member
    have hcons := List.nodup_cons.1 h
    by_cases hkey : key = name
    · subst hkey
      have hrest : rest.filter (·.1 = key) = [] := by
        refine List.filter_eq_nil_iff.2 fun other hother => ?_
        have hmem : other.1 ∈ rest.map Prod.fst := List.mem_map_of_mem hother
        simpa using fun heq : other.1 = key => hcons.1 (heq ▸ hmem)
      simp [field?, Table.get?, hrest]
    · have hfield : field? name ((key, value) :: rest) = field? name rest := by
        simp [field?, hkey]
      rw [hfield, ih hcons.2, Table.get?, if_neg hkey]

theorem field?_ofList (h : (members.map Prod.fst).Nodup) (name : String) :
    field? name (Table.ofList members) = some (Table.get? name members) := by
  rw [field?_eq_some (Table.sorted_ofList members).nodup, Table.get?_ofList h]

variable {read : Json → Option α}

theorem required?_ofList (h : (members.map Prod.fst).Nodup) (name : String) :
    required? read name (Table.ofList members) = (Table.get? name members).bind read := by
  simp [required?, field?_ofList h]

theorem defaulted?_ofList {default : α} (h : (members.map Prod.fst).Nodup) (name : String) :
    defaulted? default read name (Table.ofList members) =
      ((Table.get? name members).map read).getD (some default) := by
  simp only [defaulted?, field?_ofList h, Option.bind_eq_bind, Option.bind_some]
  cases Table.get? name members <;> rfl

theorem optional?_ofList {write : α → Json} {value : Option α} (h : (members.map Prod.fst).Nodup)
    (hget : Table.get? name members = value.map write)
    (hread : ∀ a ∈ value, write a ≠ .null ∧ read (write a) = some a) :
    optional? read name (Table.ofList members) = some value := by
  cases value with
  | none => simp [optional?, field?_ofList h, hget]
  | some a =>
    obtain ⟨hnull, hread⟩ := hread a rfl
    simp [optional?, field?_ofList h, hget, hread]

theorem optional?_string {value : Option String} (h : (members.map Prod.fst).Nodup)
    (hget : Table.get? name members = value.map .str) :
    optional? string? name (Table.ofList members) = some value :=
  optional?_ofList h hget fun _ _ => ⟨by simp, rfl⟩

private theorem search_eq {search : List (String × Json) → Option (Option α)}
    {read : Json → Option (Option α)} (h : (members.map Prod.fst).Nodup)
    (hnil : search [] = some none)
    (hcons : ∀ key value rest, search ((key, value) :: rest) =
      if key = name then if rest.any (·.1 = name) then none else read value else search rest) :
    search members = ((Table.get? name members).map read).getD (some none) := by
  induction members with
  | nil => simp [hnil]
  | cons member rest ih =>
    obtain ⟨key, value⟩ := member
    have hnames := List.nodup_cons.1 h
    by_cases hkey : key = name
    · subst hkey
      have hrest : rest.any (·.1 = key) = false := by
        simpa using fun _ value hmem heq => hnames.1 (List.mem_map.2 ⟨(_, value), hmem, heq⟩)
      simp [hcons, hrest, Table.get?]
    · rw [hcons, if_neg hkey, ih hnames.2, Table.get?, if_neg hkey]

theorem search_ofList {search : List (String × Json) → Option (Option α)}
    {read : Json → Option (Option α)} (h : (members.map Prod.fst).Nodup)
    (hnil : search [] = some none)
    (hcons : ∀ key value rest, search ((key, value) :: rest) =
      if key = name then if rest.any (·.1 = name) then none else read value else search rest) :
    search (Table.ofList members) = ((Table.get? name members).map read).getD (some none) := by
  rw [search_eq (Table.sorted_ofList members).nodup hnil hcons, Table.get?_ofList h]

theorem tagged?_record {tagging : Tagging} {cases : List String} {case : String}
    (h : (((name, Json.str case) :: members).map Prod.fst).Nodup) (hcase : case ∈ cases) :
    tagged? name tagging cases (.record ((name, .str case) :: members)) =
      some (case, .record members) := by
  have htag : required? (caseOf? tagging cases) name
      (Table.ofList ((name, .str case) :: members)) = some case := by
    simp [required?_ofList h, Table.get?, caseOf?, hcase]
  have herase := Table.erase_ofList_cons h
  rw [Table.erase] at herase
  simp only [record, tagged?, htag, Option.bind_eq_bind, Option.bind_some, herase]

end Fields

section Members

variable {α : Type} {name : String} {write : α → Json} {value : Option α}

theorem names_member? : ((member? name write value).map Prod.fst).Sublist [name] := by
  cases value <;> simp [member?]

@[simp] theorem get?_member?_self :
    Table.get? name (member? name write value) = value.map write := by
  cases value <;> simp [member?, Table.get?]

@[simp] theorem get?_member?_of_ne {other : String} (h : other ≠ name) :
    Table.get? name (member? other write value) = none := by
  cases value <;> simp [member?, Table.get?, h]

end Members

section Values

variable {table : Table Json}

theorem list?_map {α : Type} {read : Json → Option α} {write : α → Json} {as : List α}
    (h : ∀ a ∈ as, read (write a) = some a) : list? read (.arr (as.map write)) = some as := by
  rw [list?]
  induction as with
  | nil => rfl
  | cons a rest ih =>
    rw [List.forall_mem_cons] at h
    simp [List.mapM_cons, h.1, ih h.2]

theorem list?_ofStrings (ss : List String) : list? string? (ofStrings ss) = some ss :=
  list?_map fun _ _ => rfl

theorem isOrdered_obj_iff :
    (Json.obj table).IsOrdered ↔ table.Sorted ∧ canonicalMembers table = table := by
  rw [IsOrdered, canonical, Json.obj.injEq]
  constructor
  · intro h
    have hsorted : table.Sorted := h ▸ Table.sorted_ofList _
    have hnames : Table.names (canonicalMembers table) = table.names := by
      simp [canonicalMembers_eq_mapValues, Table.mapValues, Table.names]
    have hvalues : Table.Sorted (canonicalMembers table) := by
      rw [Table.Sorted, hnames]
      exact hsorted
    exact ⟨hsorted, by rw [← hvalues.ofList_eq, h]⟩
  · rintro ⟨hsorted, hvalues⟩
    rw [hvalues, hsorted.ofList_eq]

theorem isOrdered_obj (hsorted : table.Sorted) (hvalues : ∀ entry ∈ table, entry.2.IsOrdered) :
    (Json.obj table).IsOrdered := by
  refine isOrdered_obj_iff.2 ⟨hsorted, ?_⟩
  rw [canonicalMembers_eq_mapValues, Table.mapValues]
  have hsame : ∀ entry ∈ table, (entry.1, entry.2.canonical) = id entry :=
    fun entry hentry => Prod.ext rfl (hvalues entry hentry)
  rw [List.map_congr_left hsame, List.map_id]

theorem IsOrdered.put (h : (Json.obj table).IsOrdered) (name : String) {value : Json}
    (hvalue : value.IsOrdered) : (Json.obj (Table.put name value table)).IsOrdered := by
  obtain ⟨hsorted, hvalues⟩ := isOrdered_obj_iff.1 h
  refine isOrdered_obj_iff.2 ⟨hsorted.put _ _, ?_⟩
  rw [canonicalMembers_eq_mapValues] at hvalues ⊢
  rw [Table.mapValues_put, hvalues, hvalue]

theorem IsOrdered.table? (h : (Json.obj table).IsOrdered) : table? (.obj table) = some table := by
  rw [IsOrdered, canonical, Json.obj.injEq] at h
  rw [Json.table?, h]

theorem IsOrdered.value? {j : Json} (h : j.IsOrdered) : value? j = some j := by
  rw [Json.value?, h]

end Values

end LiveDoc.Json
