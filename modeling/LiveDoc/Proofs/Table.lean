import LiveDoc.Table

/-!
# Sorted tables

Tables are built in ascending order of name. A table in that order is the table of its entries, and
an entry that is forgotten can be put back.
-/

set_option autoImplicit false
set_option relaxedAutoImplicit false

namespace LiveDoc.Table

variable {α : Type} {name : String} {value : α} {table : Table α}

private theorem lt_of_not_lt {a b : String} (hlt : ¬ a < b) (hne : a ≠ b) : b < a :=
  Std.lt_of_le_of_ne (String.not_lt.1 hlt) hne.symm

private theorem mem_put {entry : String × α} (h : entry ∈ put name value table) :
    entry = (name, value) ∨ entry ∈ table := by
  induction table with
  | nil => simpa [put] using h
  | cons other rest ih =>
    obtain ⟨key, old⟩ := other
    rw [put] at h
    split at h
    · simpa using h
    · split at h
      · exact (List.mem_cons.1 h).imp_right (List.mem_cons_of_mem _)
      · rcases List.mem_cons.1 h with rfl | h
        · exact .inr List.mem_cons_self
        · exact (ih h).imp_right (List.mem_cons_of_mem _)

theorem mem_names_put {other : String} (h : other ∈ (put name value table).names) :
    other = name ∨ other ∈ table.names := by
  obtain ⟨entry, hentry, rfl⟩ := List.mem_map.1 h
  exact (mem_put hentry).imp (congrArg Prod.fst) List.mem_map_of_mem

theorem Sorted.put (h : Sorted table) (name : String) (value : α) :
    Sorted (put name value table) := by
  induction table with
  | nil => simp [Table.put, Sorted, names]
  | cons entry rest ih =>
    obtain ⟨key, old⟩ := entry
    have hcons := List.pairwise_cons.1 h
    rw [Table.put]
    split
    · rename_i hlt
      refine List.pairwise_cons.2 ⟨fun other hother => ?_, h⟩
      rcases List.mem_cons.1 hother with rfl | hother
      · exact hlt
      · exact String.lt_trans hlt (hcons.1 other hother)
    · rename_i hlt
      split
      · rename_i heq
        subst heq
        exact List.pairwise_cons.2 hcons
      · rename_i hne
        refine List.pairwise_cons.2 ⟨fun other hother => ?_, ih hcons.2⟩
        rcases mem_names_put hother with rfl | hother
        · exact lt_of_not_lt hlt hne
        · exact hcons.1 other hother

private theorem sorted_foldl (entries : List (String × α)) (h : Sorted table) :
    Sorted (entries.foldl (fun table entry => put entry.1 entry.2 table) table) := by
  induction entries generalizing table with
  | nil => exact h
  | cons entry rest ih => exact ih (h.put entry.1 entry.2)

theorem sorted_ofList (entries : List (String × α)) : Sorted (ofList entries) :=
  sorted_foldl entries .nil

theorem Sorted.filter (h : Sorted table) (p : String × α → Bool) : Sorted (table.filter p) :=
  List.Pairwise.sublist (List.filter_sublist.map Prod.fst) h

theorem Sorted.nodup (h : Sorted table) : table.names.Nodup := by
  refine List.Pairwise.imp ?_ h
  intro a b hlt heq
  exact String.lt_irrefl b (heq ▸ hlt)

theorem mem_of_get? (h : table.get? name = some value) : (name, value) ∈ table := by
  induction table with
  | nil => simp at h
  | cons entry rest ih =>
    obtain ⟨key, old⟩ := entry
    rw [get?] at h
    split at h
    · rename_i heq
      obtain rfl := Option.some.inj h
      exact heq ▸ List.mem_cons_self
    · exact List.mem_cons_of_mem _ (ih h)

theorem put_of_forall_lt (h : ∀ other ∈ table.names, other < name) :
    put name value table = table ++ [(name, value)] := by
  induction table with
  | nil => rfl
  | cons entry rest ih =>
    obtain ⟨key, old⟩ := entry
    have hkey : key < name := h key List.mem_cons_self
    have hlt : ¬ name < key := fun hlt => String.lt_irrefl _ (String.lt_trans hkey hlt)
    have hne : ¬ name = key := fun heq => String.lt_irrefl _ (heq ▸ hkey)
    have hrest := ih fun other hother => h other (List.mem_cons_of_mem key hother)
    rw [put, if_neg hlt, if_neg hne, hrest, List.cons_append]

private theorem foldl_eq_append {entries : List (String × α)} (h : Sorted (table ++ entries)) :
    entries.foldl (fun table entry => put entry.1 entry.2 table) table = table ++ entries := by
  induction entries generalizing table with
  | nil => simp
  | cons entry rest ih =>
    have hlast (other : String) (hother : other ∈ table.names) : other < entry.1 := by
      rw [Sorted, names, List.map_append, List.pairwise_append] at h
      exact h.2.2 other hother entry.1 List.mem_cons_self
    rw [List.foldl_cons, put_of_forall_lt hlast, ih (by simpa using h)]
    simp

theorem Sorted.ofList_eq (h : Sorted table) : ofList table = table :=
  foldl_eq_append h

theorem Sorted.put_erase (h : Sorted table) (hget : table.get? name = some value) :
    Table.put name value (erase name table) = table := by
  induction table with
  | nil => simp at hget
  | cons entry rest ih =>
    obtain ⟨key, old⟩ := entry
    have hcons := List.pairwise_cons.1 h
    rw [get?] at hget
    split at hget
    · rename_i heq
      subst heq
      obtain rfl := Option.some.inj hget
      have hkeep : erase key rest = rest := by
        refine List.filter_eq_self.2 fun entry hentry => ?_
        have hlt : key < entry.1 := hcons.1 _ (List.mem_map_of_mem hentry)
        have hne : entry.1 ≠ key := fun heq => String.lt_irrefl _ (heq ▸ hlt)
        simpa using hne
      have hdrop : erase key ((key, old) :: rest) = rest := by
        rw [← hkeep]
        simp [erase]
      rw [hdrop]
      cases rest with
      | nil => rfl
      | cons next rest =>
        have hlt : key < next.1 := hcons.1 _ List.mem_cons_self
        rw [Table.put, if_pos hlt]
    · rename_i hne
      have hlt : key < name := hcons.1 name (List.mem_map_of_mem (mem_of_get? hget))
      have hnlt : ¬ name < key := fun h => String.lt_irrefl _ (String.lt_trans hlt h)
      have hkeep : erase name ((key, old) :: rest) = (key, old) :: erase name rest := by
        simp [erase, hne]
      rw [hkeep, Table.put, if_neg hnlt, if_neg (Ne.symm hne), ih hcons.2 hget]

theorem erase_put (name : String) (value : α) (table : Table α) :
    erase name (put name value table) = erase name table := by
  induction table with
  | nil => simp [put, erase]
  | cons entry rest ih =>
    obtain ⟨key, old⟩ := entry
    rw [put]
    split
    · simp [erase]
    · split
      · rename_i heq
        simp [erase, heq]
      · simp only [erase] at ih ⊢
        rw [List.filter_cons, ih, List.filter_cons]

theorem Sorted.put_of_erase (h : Sorted table) (name : String) (value : α) :
    Table.put name value (erase name table) = Table.put name value table := by
  have hput := (h.put name value).put_erase (get?_put_self name value table)
  rwa [erase_put] at hput

theorem put_comm {other : String} (hne : name ≠ other) (value more : α) (table : Table α) :
    put name value (put other more table) = put other more (put name value table) := by
  have hlt : name < other ∨ other < name := by
    by_cases h : name < other
    · exact .inl h
    · exact .inr (lt_of_not_lt h hne)
  induction table with
  | nil =>
    rcases hlt with h | h
    · simp [put, h, hne.symm, String.lt_asymm h]
    · simp [put, h, hne, String.lt_asymm h]
  | cons entry rest ih =>
    -- the name of the entry is one of the two, or comes before, between or behind them
    obtain ⟨key, old⟩ := entry
    grind [put, String.lt_trans, String.lt_asymm]

section Entries

variable {entries : List (String × α)}

private theorem mem_foldl_put {entry : String × α}
    (h : entry ∈ entries.foldl (fun table entry => put entry.1 entry.2 table) table) :
    entry ∈ entries ∨ entry ∈ table := by
  induction entries generalizing table with
  | nil => exact .inr h
  | cons other rest ih =>
    rcases ih h with h | h
    · exact .inl (List.mem_cons_of_mem _ h)
    · exact (mem_put h).imp_left fun heq => by simp [heq]

theorem mem_of_mem_ofList {entry : String × α} (h : entry ∈ ofList entries) : entry ∈ entries := by
  simpa using mem_foldl_put h

private theorem get?_foldl_put (hnew : name ∉ entries.map Prod.fst) :
    get? name (entries.foldl (fun table entry => put entry.1 entry.2 table) table) =
      get? name table := by
  induction entries generalizing table with
  | nil => rfl
  | cons other rest ih =>
    rw [List.map_cons, List.mem_cons, not_or] at hnew
    rw [List.foldl_cons, ih hnew.2, get?_put_of_ne hnew.1]

theorem get?_ofList_of_mem (hnodup : (entries.map Prod.fst).Nodup) (h : (name, value) ∈ entries) :
    get? name (ofList entries) = some value := by
  obtain ⟨front, back, rfl⟩ := List.append_of_mem h
  have hback : name ∉ back.map Prod.fst := by
    rw [List.map_append, List.map_cons, List.nodup_append, List.nodup_cons] at hnodup
    exact hnodup.2.1.1
  rw [ofList, List.foldl_append, List.foldl_cons, get?_foldl_put hback, get?_put_self]

theorem get?_eq_some_iff (h : Sorted table) :
    get? name table = some value ↔ (name, value) ∈ table := by
  constructor
  · exact mem_of_get?
  · intro hmem
    rw [← h.ofList_eq]
    exact get?_ofList_of_mem h.nodup hmem

theorem get?_ofList_eq_none (h : name ∉ entries.map Prod.fst) : get? name (ofList entries) = none :=
  get?_foldl_put h

theorem get?_eq_none_iff : get? name table = none ↔ name ∉ table.names := by
  induction table with
  | nil => simp [names]
  | cons entry rest ih =>
    obtain ⟨key, old⟩ := entry
    by_cases heq : key = name
    · simp [get?, names, heq]
    · rw [get?, if_neg heq, ih]
      simp [names, Ne.symm heq]

@[simp] theorem get?_append (name : String) (front back : Table α) :
    get? name (front ++ back) = (get? name front).or (get? name back) := by
  induction front with
  | nil => rfl
  | cons entry rest ih =>
    obtain ⟨key, old⟩ := entry
    by_cases heq : key = name
    · simp [get?, heq]
    · simp [get?, heq, ih]

theorem get?_union {second : Table α} (hnodup : second.names.Nodup) (name : String)
    (first : Table α) :
    get? name (first.union second) = (get? name second).or (get? name first) := by
  induction second generalizing first with
  | nil => rfl
  | cons entry rest ih =>
    obtain ⟨key, value⟩ := entry
    obtain ⟨hkey, hrest⟩ := List.nodup_cons.1 hnodup
    have hunion : first.union ((key, value) :: rest) = (put key value first).union rest := rfl
    rw [hunion, ih hrest]
    by_cases heq : key = name
    · subst heq
      rw [get?_eq_none_iff.2 hkey, get?_put_self, get?, if_pos rfl]
      rfl
    · rw [get?_put_of_ne (Ne.symm heq), get?, if_neg heq]

theorem get?_ofList (hnodup : (entries.map Prod.fst).Nodup) (name : String) :
    get? name (ofList entries) = get? name entries := by
  cases hget : get? name entries with
  | none => exact get?_ofList_eq_none (get?_eq_none_iff.1 hget)
  | some value => exact get?_ofList_of_mem hnodup (mem_of_get? hget)

theorem names_ofList_perm (hnodup : (entries.map Prod.fst).Nodup) :
    (ofList entries).names.Perm (entries.map Prod.fst) := by
  refine (List.perm_ext_iff_of_nodup (sorted_ofList entries).nodup hnodup).2 fun name => ?_
  constructor
  · intro hname
    obtain ⟨entry, hentry, rfl⟩ := List.mem_map.1 hname
    exact List.mem_map_of_mem (mem_of_mem_ofList hentry)
  · intro hname
    obtain ⟨entry, hentry, rfl⟩ := List.mem_map.1 hname
    exact List.mem_map_of_mem (mem_of_get? (get?_ofList_of_mem hnodup hentry))

theorem Sorted.ext {other : Table α} (h : Sorted table) (hother : Sorted other)
    (heq : ∀ name, get? name table = get? name other) : table = other := by
  have hpairs {t : Table α} (ht : Sorted t) : t.Pairwise fun a b => a.1 < b.1 :=
    List.pairwise_map.1 ht
  have hnodup {t : Table α} (ht : Sorted t) : t.Nodup :=
    List.Pairwise.of_map Prod.fst (fun _ _ hne heq => hne (congrArg Prod.fst heq)) ht.nodup
  have hperm : table.Perm other := by
    refine (List.perm_ext_iff_of_nodup (hnodup h) (hnodup hother)).2 fun entry => ?_
    rw [← get?_eq_some_iff h, ← get?_eq_some_iff hother, heq]
  refine hperm.eq_of_pairwise (fun a b _ _ hab hba => ?_) (hpairs h) (hpairs hother)
  exact absurd (String.lt_trans hab hba) (String.lt_irrefl a.1)

theorem Sorted.ofList_cons (h : Sorted table) (hname : name ∉ table.names) (value : α) :
    ofList ((name, value) :: table) = Table.put name value table := by
  have hnodup : (((name, value) :: table).map Prod.fst).Nodup := List.nodup_cons.2 ⟨hname, h.nodup⟩
  refine (sorted_ofList _).ext (h.put name value) fun other => ?_
  rw [get?_ofList hnodup, get?]
  split
  · rename_i heq
    rw [← heq, get?_put_self]
  · rename_i hne
    rw [get?_put_of_ne (Ne.symm hne)]

theorem ofList_perm {others : List (String × α)} (hnodup : (entries.map Prod.fst).Nodup)
    (hperm : entries.Perm others) : ofList entries = ofList others := by
  have hnames := hperm.map Prod.fst
  refine (sorted_ofList entries).ext (sorted_ofList others) fun name => ?_
  by_cases hname : name ∈ entries.map Prod.fst
  · obtain ⟨⟨_, value⟩, hmem, rfl⟩ := List.mem_map.1 hname
    rw [get?_ofList_of_mem hnodup hmem,
      get?_ofList_of_mem (hnames.nodup_iff.1 hnodup) (hperm.mem_iff.1 hmem)]
  · rw [get?_ofList_eq_none hname,
      get?_ofList_eq_none fun hother => hname (hnames.mem_iff.2 hother)]

theorem get?_filter (p : String → Bool) (name : String) (table : Table α) :
    get? name (table.filter fun entry => p entry.1) = if p name then get? name table else none := by
  induction table with
  | nil => simp
  | cons entry rest ih =>
    obtain ⟨key, old⟩ := entry
    by_cases heq : key = name
    · subst heq
      cases hkey : p key <;> simp [hkey, get?, ih]
    · cases hkey : p key <;> simp [hkey, get?, heq, ih]

theorem erase_ofList_cons (hnodup : (((name, value) :: entries).map Prod.fst).Nodup) :
    erase name (ofList ((name, value) :: entries)) = ofList entries := by
  have hcons := List.nodup_cons.1 hnodup
  refine ((sorted_ofList _).filter _).ext (sorted_ofList _) fun other => ?_
  refine (get?_filter (fun key => decide (key ≠ name)) other _).trans ?_
  rw [get?_ofList hnodup, get?_ofList hcons.2]
  by_cases heq : other = name
  · simpa [heq] using (get?_eq_none_iff.2 hcons.1).symm
  · simp [heq, get?, Ne.symm heq]

end Entries

section Values

variable {β : Type}

/-- The entries of a table with their values changed. -/
def mapValues (f : α → β) (table : Table α) : Table β :=
  table.map fun entry => (entry.1, f entry.2)

theorem get?_mapValues (f : α → β) (name : String) (table : Table α) :
    get? name (mapValues f table) = (get? name table).map f := by
  induction table with
  | nil => rfl
  | cons entry rest ih =>
    have hcons : mapValues f (entry :: rest) = (entry.1, f entry.2) :: mapValues f rest := rfl
    rw [hcons, get?, get?, ih]
    split <;> rfl

theorem mapValues_put (f : α → β) (name : String) (value : α) (table : Table α) :
    mapValues f (put name value table) = put name (f value) (mapValues f table) := by
  induction table with
  | nil => rfl
  | cons entry rest ih =>
    obtain ⟨key, old⟩ := entry
    have hcons (table : Table α) (entry : String × α) :
        mapValues f (entry :: table) = (entry.1, f entry.2) :: mapValues f table := rfl
    rw [put, hcons, put]
    split
    · rfl
    · split
      · rfl
      · rw [hcons, ih]

theorem mapValues_ofList (f : α → β) (entries : List (String × α)) :
    mapValues f (ofList entries) = ofList (mapValues f entries) := by
  have hfoldl (entries table : List (String × α)) :
      mapValues f (entries.foldl (fun table entry => put entry.1 entry.2 table) table) =
        (mapValues f entries).foldl (fun table entry => put entry.1 entry.2 table)
          (mapValues f table) := by
    induction entries generalizing table with
    | nil => rfl
    | cons entry rest ih => rw [List.foldl_cons, ih, mapValues_put]; rfl
  exact hfoldl entries []

end Values

end LiveDoc.Table
